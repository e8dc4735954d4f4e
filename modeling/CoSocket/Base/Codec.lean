import CoSocket.Lib.Base64
import CoSocket.Base.Bytes

/-!
# Base.Codec

`UrlDecode` of `base/UrlCodec.cpp` and `base64_encode` of `3rd/base64/base64.cpp`.
-/

namespace CoSocket
namespace Base

/-- The byte of an ASCII character. -/
def ascii (c : Char) : UInt8 := UInt8.ofNat c.toNat

def fromHex (x : UInt8) : UInt8 :=
  if x ≥ ascii 'A' ∧ x ≤ ascii 'Z' then x - ascii 'A' + 10
  else if x ≥ ascii 'a' ∧ x ≤ ascii 'z' then x - ascii 'a' + 10
  else if x ≥ ascii '0' ∧ x ≤ ascii '9' then x - ascii '0'
  else 0

/-- A percent sign with fewer than two characters behind it is dropped; those are kept. -/
def urlDecode : Bytes → Bytes
  | [] => []
  | b :: rest =>
    if b = ascii '+' then ascii ' ' :: urlDecode rest
    else if b = ascii '%' then
      match rest with
      | high :: low :: rest => (fromHex high * 16 + fromHex low) :: urlDecode rest
      | rest => urlDecode rest
    else b :: urlDecode rest

example : urlDecode (bytesOf "/a%2Fb+c%4") = bytesOf "/a/b c4" := by decide +kernel

/-- The character for six bits. -/
def b64Table (n : Nat) : UInt8 :=
  (bytesOf "ABCDEFGHIJKLMNOPQRSTUVWXYZabcdefghijklmnopqrstuvwxyz0123456789+/").getD n 0

/-- The loop state of `base64_encode`. -/
structure B64State where
  out : Bytes := []
  bitsCollected : Nat := 0
  accumulator : Nat := 0

/-- One byte: eight more bits, and a character for every six of those collected. -/
def B64State.push (s : B64State) (b : UInt8) : B64State :=
  let accumulator := (s.accumulator * 256 + b.toNat) % 2 ^ 32
  let bits := s.bitsCollected + 8
  { out := s.out ++ (List.range (bits / 6)).map fun k =>
      b64Table (accumulator / 2 ^ (bits - 6 * (k + 1)) % 64)
    bitsCollected := bits % 6
    accumulator }

def base64Encode (bindata : Bytes) : Bytes :=
  let s := bindata.foldl B64State.push {}
  let out := if s.bitsCollected > 0 then
    s.out ++ [b64Table (s.accumulator * 2 ^ (6 - s.bitsCollected) % 2 ^ 32 % 64)] else s.out
  out ++ List.replicate ((bindata.length + 2) / 3 * 4 - out.length) (ascii '=')

/-! ## The loop of `base64_encode` against the encoding -/

/-- The number of a character of the table. -/
def b64Value (c : UInt8) : Nat :=
  (bytesOf "ABCDEFGHIJKLMNOPQRSTUVWXYZabcdefghijklmnopqrstuvwxyz0123456789+/").idxOf c

theorem b64Value_b64Table : ∀ n < 64, b64Value (b64Table n) = n := by decide +kernel

theorem b64Table_ne_pad : ∀ n < 64, b64Table n ≠ ascii '=' := by decide +kernel

/-- The characters with those of the bits left over. -/
def B64State.flush (s : B64State) : Bytes :=
  if s.bitsCollected > 0 then
    s.out ++ [b64Table (s.accumulator * 2 ^ (6 - s.bitsCollected) % 2 ^ 32 % 64)] else s.out

namespace B64State

theorem push_zero {s : B64State} (h : s.bitsCollected = 0) (a : UInt8) :
    s.push a =
      { out := s.out ++ [b64Table (a.toNat / 4)]
        bitsCollected := 2
        accumulator := (s.accumulator * 256 + a.toNat) % 2 ^ 32 } := by
  have ha := a.toNat_lt
  have hsix : (s.accumulator * 256 + a.toNat) % 4294967296 / 4 % 64 = a.toNat / 4 := by omega
  simp [push, h, List.range_succ, hsix]

theorem push_two {s : B64State} {a : Nat} (h : s.bitsCollected = 2)
    (hacc : s.accumulator % 256 = a) (b : UInt8) :
    s.push b =
      { out := s.out ++ [b64Table (a % 4 * 16 + b.toNat / 16)]
        bitsCollected := 4
        accumulator := (s.accumulator * 256 + b.toNat) % 2 ^ 32 } := by
  have hb := b.toNat_lt
  have hsix : (s.accumulator * 256 + b.toNat) % 4294967296 / 16 % 64 =
      a % 4 * 16 + b.toNat / 16 := by omega
  simp [push, h, List.range_succ, hsix]

theorem push_four {s : B64State} {b : Nat} (h : s.bitsCollected = 4)
    (hacc : s.accumulator % 256 = b) (c : UInt8) :
    s.push c =
      { out := s.out ++ [b64Table (b % 16 * 4 + c.toNat / 64), b64Table (c.toNat % 64)]
        bitsCollected := 0
        accumulator := (s.accumulator * 256 + c.toNat) % 2 ^ 32 } := by
  have hc := c.toNat_lt
  have hhigh : (s.accumulator * 256 + c.toNat) % 4294967296 / 64 % 64 =
      b % 16 * 4 + c.toNat / 64 := by omega
  have hlow : (s.accumulator * 256 + c.toNat) % 64 = c.toNat % 64 := by omega
  simp [push, h, List.range_succ, hhigh, hlow]

theorem flush_foldl_push (bs : Bytes) :
    ∀ {s : B64State}, s.bitsCollected = 0 →
      (bs.foldl push s).flush = s.out ++ Base64.symbols b64Table bs := by
  have hmod : ∀ (n : Nat) (b : UInt8), (n * 256 + b.toNat) % 2 ^ 32 % 256 = b.toNat := by
    intro n b
    have hb := b.toNat_lt
    omega
  fun_induction Base64.symbols b64Table bs with
  | case1 =>
    intro s h
    simp [flush, h]
  | case2 a =>
    intro s h
    have hlast : (s.accumulator * 256 + a.toNat) * 16 % 64 = a.toNat % 4 * 16 := by omega
    simp [push_zero h, flush, hlast]
  | case3 a b =>
    intro s h
    have hlast : ∀ n, (n * 256 + b.toNat) * 4 % 64 = b.toNat % 16 * 4 := by omega
    rw [List.foldl_cons, push_zero h, List.foldl_cons, push_two rfl (hmod _ a)]
    simp [flush, hlast]
  | case4 a b c rest ih =>
    intro s h
    rw [List.foldl_cons, push_zero h, List.foldl_cons, push_two rfl (hmod _ a), List.foldl_cons,
      push_four rfl (hmod _ b), ih rfl]
    simp

end B64State

theorem base64Encode_eq (bindata : Bytes) :
    base64Encode bindata = Base64.encode b64Table (ascii '=') bindata := by
  have hout : (bindata.foldl B64State.push {}).flush = Base64.symbols b64Table bindata :=
    B64State.flush_foldl_push bindata rfl
  rw [Base64.encode_eq_symbols, ← hout]
  rfl

example : base64Encode (bytesOf "hello") = bytesOf "aGVsbG8=" := by decide +kernel

end Base
end CoSocket
