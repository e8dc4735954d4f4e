import CoSocket.Http.Fragments

/-!
# Http.WebSocketEncoder

`net/http/WebSocketEncoder.h`: a payload cut into frames of a given size. `data` is what the pointer
`m_data` points at. The mask of a frame is the value that `random` returns for it.

`encode_outputBuf` says which frame a call of `GetFrame` makes, in the terms of the wire format;
`client_roundtrip` follows from it and from what the parser does with whole frames.
-/

namespace CoSocket
namespace Http

open Base WebSocketParser

def OpCodeType.code : OpCodeType → Fin 16
  | .Continue => 0
  | .Text => 1
  | .Binary => 2
  | .Close => 8
  | .Ping => 9
  | .Pong => 10

theorem OpCodeType.ofCode_code (code : OpCodeType) : OpCodeType.ofCode code.code = some code := by
  cases code <;> rfl

def kFrameSize : Nat := 1446

structure WebSocketEncoder where
  isClient : Bool
  opCode : OpCodeType := .Binary
  frameSize : Nat := kFrameSize
  data : Bytes := []
  len : Nat := 0
  offset : Nat := 0
  outputBuf : Bytes := []
deriving DecidableEq, Repr

namespace WebSocketEncoder

def setPayload (e : WebSocketEncoder) (data : Bytes) : WebSocketEncoder :=
  { e with data, len := data.length }

def setOpCode (e : WebSocketEncoder) (opCode : OpCodeType) : WebSocketEncoder := { e with opCode }

def setFrameSize (e : WebSocketEncoder) (frameSize : Nat) : WebSocketEncoder :=
  { e with frameSize }

def isComplete (e : WebSocketEncoder) : Bool := e.offset = e.len

/-- `m_len - m_offset`, in 64 bits. -/
def remaining (e : WebSocketEncoder) : Nat :=
  if e.offset ≤ e.len then e.len - e.offset else 2 ^ 64 + e.len - e.offset

/-- The payload bytes that the next frame takes. -/
def chunkSize (e : WebSocketEncoder) : Nat :=
  if e.frameSize > e.remaining then e.remaining else e.frameSize

/-- The second byte and the extended length. Of the eight bytes of a long one four are written. -/
def lenBytes (isClient : Bool) (frameSize : Nat) : Bytes :=
  let mask : UInt8 := if isClient then 0x80 else 0
  if frameSize > 0xFFFF then (mask ||| 127) :: (store 8 (htonll frameSize)).take 4
  else if frameSize > 126 then (mask ||| 126) :: store 2 (htons (frameSize % 2 ^ 16))
  else [mask ||| UInt8.ofNat frameSize]

/-- `Encode`, where `random` returns `mask`. -/
def encode (e : WebSocketEncoder) (mask : Nat) : WebSocketEncoder :=
  let opCode := if e.offset ≠ 0 then .Continue else e.opCode
  let fin : UInt8 := if e.frameSize > e.remaining then 0x80 else 0
  let frameSize := e.chunkSize
  let payload := e.data.take frameSize
  let body := if !e.isClient then payload
    else store 4 mask ++ payload.mapIdx fun i b => b ^^^ (store 4 mask).getD (i % 4) 0
  { e with
    opCode
    outputBuf := (fin ||| UInt8.ofNat opCode.code) :: (lenBytes e.isClient frameSize ++ body)
    data := e.data.drop frameSize
    offset := e.offset + frameSize }

/-- The loop of `ResponseWebSocketData`: the encoder at each call of `GetFrame` and the frame it
returns, and the encoder after the loop. `rounds` bounds the number of frames. -/
def frames (masks : Nat → Nat) : Nat → WebSocketEncoder →
    List (WebSocketEncoder × Bytes) × WebSocketEncoder
  | 0, e => ([], e)
  | rounds + 1, e =>
    if e.isComplete then ([], e)
    else
      let e' := e.encode (masks 0)
      let (fs, last) := frames (fun i => masks (i + 1)) rounds e'
      ((e, e'.outputBuf) :: fs, last)

/-! ## The frame of a call -/

theorem masked_eq_mapIdx (key : Bytes) (i : Nat) (bs : Bytes) :
    masked key i bs = bs.mapIdx fun j b => b ^^^ key.getD ((i + j) % key.length) 0 := by
  induction bs generalizing i with
  | nil => rfl
  | cons b bs ih =>
    rw [masked, ih, List.mapIdx_cons]
    simp [Nat.add_assoc, Nat.add_comm 1]

theorem first_byte_eq (fin : Bool) (code : Fin 16) :
    ((if fin then 0x80 else 0 : UInt8) ||| UInt8.ofNat code) = Frame.firstByte fin 0 code := by
  revert fin code
  decide

theorem second_byte_eq {code : Nat} (h : code < 128) :
    (0x80 ||| UInt8.ofNat code) = Frame.secondByte code := by
  have key : ∀ c : Fin 128, (0x80 ||| UInt8.ofNat c) = Frame.secondByte c := by decide
  exact key ⟨code, h⟩

/-- The sizes whose length is written as it is read back. -/
def Fits (n : Nat) : Prop := n ≠ 126 ∧ n ≤ 0xFFFF

/-- The form in which the length of a frame is written. -/
def form (n : Nat) : LenForm := if n > 126 then .ext16 else .inline

theorem lt_limit {n : Nat} (h : Fits n) : n < (form n).limit := by
  obtain ⟨hne, hle⟩ := h
  unfold form
  split
  · exact Nat.lt_succ_of_le hle
  · exact Nat.lt_of_le_of_ne (Nat.le_of_not_gt ‹_›) hne

theorem lenBytes_eq {n : Nat} (h : Fits n) :
    lenBytes true n = Frame.secondByte ((form n).code n) :: (form n).extended n := by
  have hlim := lt_limit h
  have hle : ¬ n > 0xFFFF := Nat.not_lt.mpr h.2
  unfold lenBytes
  simp only [if_true, if_neg hle]
  unfold form at hlim ⊢
  split
  · rename_i hgt
    have hmod : n % 2 ^ 16 = n := Nat.mod_eq_of_lt (Nat.lt_succ_of_le h.2)
    rw [hmod, store_htons]
    exact congrArg (· :: networkBytes 2 n) (second_byte_eq (show 126 < 128 by decide))
  · rename_i hgt
    rw [if_neg hgt] at hlim
    rw [second_byte_eq (Nat.lt_trans hlim (by decide))]
    rfl

/-- The frame that the next call makes in client mode. -/
def frame (e : WebSocketEncoder) (mask : Nat) (h : Fits (e.data.take e.chunkSize).length) :
    Frame where
  fin := e.frameSize > e.remaining
  rsv := 0
  opCode := (if e.offset ≠ 0 then OpCodeType.Continue else e.opCode).code
  form := form (e.data.take e.chunkSize).length
  key := store 4 mask
  payload := e.data.take e.chunkSize
  key_length := length_store 4 mask
  fits := lt_limit h

theorem encode_outputBuf {e : WebSocketEncoder} {mask : Nat} (hc : e.isClient = true)
    (hlen : (e.data.take e.chunkSize).length = e.chunkSize)
    (h : Fits (e.data.take e.chunkSize).length) :
    (e.encode mask).outputBuf = (e.frame mask h).encode := by
  have hbody := masked_eq_mapIdx (store 4 mask) 0 (e.data.take e.chunkSize)
  simp only [Nat.zero_add, length_store] at hbody
  have hfin := first_byte_eq (decide (e.frameSize > e.remaining))
    (if e.offset ≠ 0 then OpCodeType.Continue else e.opCode).code
  simp only [decide_eq_true_eq] at hfin
  rw [Frame.encode, Frame.header]
  simp only [frame, hbody, encode, hc, hfin, Bool.not_true, Bool.false_eq_true, if_false]
  rw [← hlen, lenBytes_eq (hlen ▸ h)]
  simp

/-! ## Through the parser -/

/-- The client encoder for a payload. -/
def client (payload : Bytes) (opCode : OpCodeType) (frameSize : Nat) : WebSocketEncoder :=
  ((({ isClient := true } : WebSocketEncoder).setPayload payload).setOpCode
    opCode).setFrameSize frameSize

/-- The encoder between two frames of the payload. -/
structure Encoding (payload : Bytes) (e : WebSocketEncoder) : Prop where
  client : e.isClient = true
  len : e.len = payload.length
  offset : e.offset < payload.length
  data : e.data = payload.drop e.offset
  positive : 1 ≤ e.frameSize
  aligned : e.frameSize ∣ e.offset
  opCode : e.offset = 0 → e.opCode ≠ .Continue

namespace Encoding

variable {payload : Bytes} {e : WebSocketEncoder}

theorem remaining_eq (h : Encoding payload e) : e.remaining = payload.length - e.offset := by
  rw [remaining, h.len, if_pos (Nat.le_of_lt h.offset)]

theorem chunkSize_le (h : Encoding payload e) : e.chunkSize ≤ payload.length - e.offset := by
  unfold chunkSize
  rw [h.remaining_eq]
  split
  · exact Nat.le_refl _
  · exact Nat.le_of_not_gt ‹_›

theorem length_chunk (h : Encoding payload e) :
    (e.data.take e.chunkSize).length = e.chunkSize := by
  rw [List.length_take, h.data, List.length_drop]
  exact Nat.min_eq_left h.chunkSize_le

theorem take_append_chunk (h : Encoding payload e) :
    payload.take e.offset ++ e.data.take e.chunkSize = payload.take (e.offset + e.chunkSize) := by
  rw [h.data, List.take_add]

theorem accepted (h : Encoding payload e) (hmax : payload.length ≤ kMaxLength) {mask : Nat}
    (hfit : Fits (e.data.take e.chunkSize).length) :
    Accepted (payload.take e.offset) (e.frame mask hfit) := by
  refine ⟨⟨_, OpCodeType.ofCode_code _, ?_⟩, ?_⟩
  · intro hcont hnil
    have hzero : e.offset = 0 := by
      have hlen := congrArg List.length hnil
      rw [List.length_take, Nat.min_eq_left (Nat.le_of_lt h.offset)] at hlen
      exact hlen
    rw [if_neg (by simpa using hzero)] at hcont
    exact h.opCode hzero hcont
  · have hsum : (payload.take e.offset).length + (e.data.take e.chunkSize).length ≤
        payload.length := by
      rw [← List.length_append, h.take_append_chunk]
      exact List.length_take_le' _ _
    exact Nat.le_trans hsum hmax

/-- Where the size of a frame does not divide the payload, a frame that is not the last leaves
something for the next one. -/
theorem next (h : Encoding payload e) (hdiv : ¬ e.frameSize ∣ payload.length)
    (hmore : ¬ e.frameSize > e.remaining) (mask : Nat) : Encoding payload (e.encode mask) := by
  have hchunk : e.chunkSize = e.frameSize := if_neg hmore
  rw [h.remaining_eq] at hmore
  have hlt : e.offset + e.frameSize < payload.length := by
    refine Nat.lt_of_le_of_ne (by have := h.offset; omega) fun heq => hdiv ?_
    rw [← heq]
    exact (Nat.dvd_add_right h.aligned).mpr (Nat.dvd_refl _)
  refine ⟨h.client, h.len, ?_, ?_, h.positive, ?_, ?_⟩
  · show e.offset + e.chunkSize < payload.length
    rw [hchunk]
    exact hlt
  · show e.data.drop e.chunkSize = payload.drop (e.offset + e.chunkSize)
    rw [h.data, List.drop_drop]
  · show e.frameSize ∣ e.offset + e.chunkSize
    rw [hchunk]
    exact (Nat.dvd_add_right h.aligned).mpr (Nat.dvd_refl _)
  · intro hzero
    have hsum : e.offset + e.chunkSize = 0 := hzero
    have hpos := h.positive
    omega

end Encoding

end WebSocketEncoder

namespace WebSocketParser

/-- One call of `Parse` for each of the chunks, and whether all of them returned `true`. -/
def parseAll (p : WebSocketParser) : List Bytes → Bool × WebSocketParser
  | [] => (true, p)
  | c :: cs => ((p.parse c).1 && ((p.parse c).2.parseAll cs).1, ((p.parse c).2.parseAll cs).2)

/-- The chunks are all accepted, the message `payload` is complete with the last of them and not
before. -/
def Completes (p : WebSocketParser) (chunks : List Bytes) (payload : Bytes) : Prop :=
  ∃ before last, chunks = before ++ [last] ∧
    (∀ pre, pre <+: before ++ [last] → (p.parseAll pre).1 = true) ∧
    (∀ pre, pre <+: before → (p.parseAll pre).2.complete = false) ∧
    (p.parseAll (before ++ [last])).2.complete = true ∧
    (p.parseAll (before ++ [last])).2.payload = payload

theorem completes_last {p : WebSocketParser} {c payload : Bytes} (hp : p.complete = false)
    (hok : (p.parse c).1 = true) (hc : (p.parse c).2.complete = true)
    (hpay : (p.parse c).2.payload = payload) : Completes p [c] payload := by
  refine ⟨[], c, rfl, fun pre hpre => ?_, fun pre hpre => ?_, hc, hpay⟩
  · rcases List.prefix_cons_iff.mp hpre with rfl | ⟨t, rfl, ht⟩
    · rfl
    · rw [List.prefix_nil.mp ht]
      simp [parseAll, hok]
  · rw [List.prefix_nil.mp hpre]
    exact hp

theorem completes_cons {p : WebSocketParser} {c payload : Bytes} {cs : List Bytes}
    (hp : p.complete = false) (hok : (p.parse c).1 = true)
    (h : Completes (p.parse c).2 cs payload) : Completes p (c :: cs) payload := by
  obtain ⟨before, last, rfl, hall, hbefore, hcomp, hpay⟩ := h
  refine ⟨c :: before, last, rfl, fun pre hpre => ?_, fun pre hpre => ?_, hcomp, hpay⟩
  · rcases List.prefix_cons_iff.mp hpre with rfl | ⟨t, rfl, ht⟩
    · rfl
    · simp [parseAll, hok, hall t ht]
  · rcases List.prefix_cons_iff.mp hpre with rfl | ⟨t, rfl, ht⟩
    · exact hp
    · exact hbefore t ht

end WebSocketParser

namespace WebSocketEncoder

theorem frames_of_isComplete {e : WebSocketEncoder} (h : e.isComplete = true) (masks : Nat → Nat)
    (rounds : Nat) : frames masks rounds e = ([], e) := by
  cases rounds with
  | zero => rfl
  | succ rounds => rw [frames, if_pos h]

theorem frames_succ {e : WebSocketEncoder} (h : e.isComplete = false) (masks : Nat → Nat)
    (rounds : Nat) :
    frames masks (rounds + 1) e =
      ((e, (e.encode (masks 0)).outputBuf) ::
        (frames (fun i => masks (i + 1)) rounds (e.encode (masks 0))).1,
        (frames (fun i => masks (i + 1)) rounds (e.encode (masks 0))).2) := by
  rw [frames, if_neg (by simp [h])]

/-- One frame at the parser: it is accepted, and its bytes are put behind those that came before. -/
theorem Encoding.parse_frame {payload : Bytes} {e : WebSocketEncoder} {p : WebSocketParser}
    (h : Encoding payload e) (hmax : payload.length ≤ kMaxLength) (mask : Nat)
    (hfit : Fits (e.data.take e.chunkSize).length) (hbet : Between (payload.take e.offset) p)
    (hcomp : p.complete = false) :
    (p.parse (e.encode mask).outputBuf).1 = true ∧
      Between (payload.take (e.offset + e.chunkSize)) (p.parse (e.encode mask).outputBuf).2 ∧
      (p.parse (e.encode mask).outputBuf).2.complete = decide (e.frameSize > e.remaining) := by
  have hwhole := (e.frame mask hfit).whole_chunk
  obtain ⟨-, hread, hpay⟩ := collect_end (hbet.midway hcomp (e.frame mask hfit)) hwhole
  obtain ⟨hok, hbet', hfin, -⟩ := parse_end_of_valid (hbet.midway hcomp _)
    (isValidFrame_of_accepted (h.accepted hmax hfit) hread hpay) (Frame.encode_ne_nil _) hwhole
  rw [encode_outputBuf h.client h.length_chunk hfit]
  rw [show (e.frame mask hfit).payload = e.data.take e.chunkSize from rfl,
    h.take_append_chunk] at hbet'
  exact ⟨hok, hbet', hfin⟩

theorem frames_completes {payload : Bytes} (hmax : payload.length ≤ kMaxLength) :
    ∀ {rounds : Nat} {masks : Nat → Nat} {e : WebSocketEncoder} {p : WebSocketParser},
      Encoding payload e → ¬ e.frameSize ∣ payload.length → payload.length - e.offset ≤ rounds →
      (∀ call ∈ (frames masks rounds e).1, Fits call.1.chunkSize) →
      Between (payload.take e.offset) p → p.complete = false →
      (frames masks rounds e).2.isComplete = true ∧
        Completes p ((frames masks rounds e).1.map Prod.snd) payload := by
  intro rounds
  induction rounds with
  | zero =>
    intro masks e p h _ hrounds
    have := h.offset
    omega
  | succ rounds ih =>
    intro masks e p h hdiv hrounds hfits hbet hcomp
    have hnot : e.isComplete = false := by
      have := h.offset
      simp only [isComplete, h.len, decide_eq_false_iff_not]
      omega
    rw [frames_succ hnot] at hfits ⊢
    have hfit : Fits (e.data.take e.chunkSize).length := by
      rw [h.length_chunk]
      exact hfits _ List.mem_cons_self
    obtain ⟨hok, hbet', hfin⟩ := h.parse_frame hmax (masks 0) hfit hbet hcomp
    by_cases hlast : e.frameSize > e.remaining
    · -- the last frame takes all that is left
      have hsum : e.offset + e.chunkSize = payload.length := by
        have hoff := h.offset
        rw [chunkSize, if_pos hlast, h.remaining_eq]
        omega
      have hend : (e.encode (masks 0)).isComplete = true := by
        have hlen : (e.encode (masks 0)).len = payload.length := h.len
        simp only [isComplete, hlen, decide_eq_true_eq]
        exact hsum
      rw [frames_of_isComplete hend]
      refine ⟨hend, completes_last hcomp hok ?_ ?_⟩
      · rw [hfin]
        exact decide_eq_true hlast
      · rw [hbet'.payload, hsum, List.take_length]
    · have hchunk : e.chunkSize = e.frameSize := if_neg hlast
      obtain ⟨hend, hrest⟩ := ih (h.next hdiv hlast (masks 0)) hdiv
        (by
          have hpos := h.positive
          show payload.length - (e.offset + e.chunkSize) ≤ rounds
          omega)
        (fun call hcall => hfits call (List.mem_cons_of_mem _ hcall)) hbet'
        (by
          rw [hfin]
          exact decide_eq_false hlast)
      exact ⟨hend, completes_cons hcomp hok hrest⟩

/-- **Round trip.** What a client encoder makes of a payload, frame by frame, a new parser puts
together again: every frame is accepted, and the message is complete with the last one and not
before. -/
theorem client_roundtrip (payload : Bytes) (opCode : OpCodeType) (frameSize : Nat)
    (masks : Nat → Nat) (hne : payload ≠ []) (hmax : payload.length ≤ kMaxLength)
    (hop : opCode ≠ .Continue) (hpos : 1 ≤ frameSize) (hdiv : ¬ frameSize ∣ payload.length)
    (hfits : ∀ call ∈ (frames masks payload.length (client payload opCode frameSize)).1,
      call.1.chunkSize ≠ 126 ∧ call.1.chunkSize ≤ 65535) :
    (frames masks payload.length (client payload opCode frameSize)).2.isComplete = true ∧
      Completes {} ((frames masks payload.length (client payload opCode frameSize)).1.map Prod.snd)
        payload :=
  frames_completes hmax
    { client := rfl
      len := rfl
      offset := List.length_pos_iff.mpr hne
      data := rfl
      positive := hpos
      aligned := Nat.dvd_zero _
      opCode := fun _ => hop }
    hdiv (Nat.sub_le _ _) hfits ⟨rfl, rfl, rfl⟩ rfl

/-- Five bytes in frames of two. -/
theorem client_roundtrip_five :
    Completes {} ((frames (fun i => i) 5 (client [1, 2, 3, 4, 5] .Text 2)).1.map Prod.snd)
      [1, 2, 3, 4, 5] :=
  (client_roundtrip [1, 2, 3, 4, 5] .Text 2 (fun i => i) (by decide) (by decide) (by decide)
    (by decide) (by decide) (by decide)).2

end WebSocketEncoder

end Http
end CoSocket
