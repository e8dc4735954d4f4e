import CoSocket.Http.WebSocketParser

/-!
# Http.Frame

The wire format of masked WebSocket frames, in its own terms: a frame, its bytes, and the data
messages frames make up. The parser is not mentioned; the limit on the size of a message is its.
-/

namespace CoSocket
namespace Http

open Base

/-- How the payload length is written: in the second byte, or in 2 or 8 bytes behind it. -/
inductive LenForm where
  | inline
  | ext16
  | ext64
deriving DecidableEq, Repr

namespace LenForm

/-- The lengths below it can be written so. -/
def limit : LenForm → Nat
  | .inline => 126
  | .ext16 => 2 ^ 16
  | .ext64 => 2 ^ 64

/-- The seven bits of the second byte. -/
def code : LenForm → Nat → Nat
  | .inline, n => n
  | .ext16, _ => 126
  | .ext64, _ => 127

/-- The bytes behind it. -/
def extended : LenForm → Nat → Bytes
  | .inline, _ => []
  | .ext16, n => networkBytes 2 n
  | .ext64, n => networkBytes 8 n

theorem code_lt {form : LenForm} {n : Nat} (h : n < form.limit) : form.code n < 128 := by
  cases form with
  | inline => exact Nat.lt_trans h (by decide)
  | ext16 => exact (by decide : 126 < 128)
  | ext64 => exact (by decide : 127 < 128)

end LenForm

/-- The payload with the key laid over it, from index `i` on. -/
def masked (key : Bytes) : Nat → Bytes → Bytes
  | _, [] => []
  | i, b :: bs => (b ^^^ key.getD (i % key.length) 0) :: masked key (i + 1) bs

@[simp] theorem length_masked (key : Bytes) (i : Nat) (bs : Bytes) :
    (masked key i bs).length = bs.length := by
  induction bs generalizing i with
  | nil => rfl
  | cons b bs ih => simp [masked, ih]

theorem masked_masked (key : Bytes) (i : Nat) (bs : Bytes) :
    masked key i (masked key i bs) = bs := by
  induction bs generalizing i with
  | nil => rfl
  | cons b bs ih => simp [masked, ih]

-- The bit fields of the first byte; every module writes their numerals with these.
instance neZero_rsv : NeZero 8 := ⟨by decide⟩
instance neZero_opCode : NeZero 16 := ⟨by decide⟩

/-- A masked frame. -/
structure Frame where
  fin : Bool
  rsv : Fin 8
  opCode : Fin 16
  form : LenForm
  key : Bytes
  payload : Bytes
  key_length : key.length = 4
  fits : payload.length < form.limit

namespace Frame

def firstByte (fin : Bool) (rsv : Fin 8) (opCode : Fin 16) : UInt8 :=
  UInt8.ofNat ((if fin then 128 else 0) + rsv * 16 + opCode)

/-- The second byte, with the mask bit set. -/
def secondByte (code : Nat) : UInt8 := UInt8.ofNat (128 + code)

def header (f : Frame) : Bytes :=
  firstByte f.fin f.rsv f.opCode :: secondByte (f.form.code f.payload.length) ::
    (f.form.extended f.payload.length ++ f.key)

def encode (f : Frame) : Bytes := f.header ++ masked f.key 0 f.payload

theorem encode_ne_nil (f : Frame) : f.encode ≠ [] := by simp [encode, header]

/-- The frame in one chunk: nothing came before it and nothing is behind it. -/
theorem whole_chunk (f : Frame) : [] ++ f.encode = f.encode ++ [] := by simp

theorem firstByte_bits (fin : Bool) (rsv : Fin 8) (opCode : Fin 16) :
    (0x0F &&& firstByte fin rsv opCode).toNat = opCode ∧
      (0x80 &&& firstByte fin rsv opCode != 0) = fin := by
  revert fin rsv opCode
  decide

theorem secondByte_bits {code : Nat} (h : code < 128) :
    (0x80 &&& secondByte code != 0) = true ∧ (0x7F &&& secondByte code).toNat = code := by
  have key : ∀ c : Fin 128, (0x80 &&& secondByte c != 0) = true ∧
      (0x7F &&& secondByte c).toNat = c := by decide
  exact key ⟨code, h⟩

end Frame

/-! ## Messages -/

/-- A data message: a text or binary frame that is not empty, continued by frames that say so, with
the final bit on the last one and on no other, and a payload within the limit. -/
structure Message where
  first : Frame
  rest : List Frame
  opens : first.opCode = 1 ∨ first.opCode = 2
  nonempty : first.payload ≠ []
  continues : ∀ f ∈ rest, f.opCode = 0
  final : (first :: rest).map (·.fin) = List.replicate rest.length false ++ [true]
  size : ((first :: rest).map fun f => f.payload.length).sum ≤ kMaxLength

namespace Message

def frames (m : Message) : List Frame := m.first :: m.rest

def payload (m : Message) : Bytes := (m.frames.map (·.payload)).flatten

end Message

end Http
end CoSocket
