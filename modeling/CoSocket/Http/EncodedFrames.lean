import CoSocket.Http.FrameCuts

/-!
# Http.EncodedFrames

The frames that `WebSocketEncoder` writes, in both modes and of any size.

`frames_finBits` and `frames_opBits` compute the first bytes of all frames of a payload: the final
bit is missing exactly when the frame size divides the payload (`final_frame_iff`).
`header_read_iff` is about one header: `ParseHeader` reads it back exactly when the size of the
frame is one that the encoder writes in the right form.
-/

namespace CoSocket
namespace Http

open Base WebSocketParser

/-! ## The first bytes -/

/-- The final bit of a frame on the wire. -/
def finBit (frame : Bytes) : Bool := 0x80 &&& frame.headD 0 != 0

/-- The opcode bits of a frame on the wire. -/
def opBits (frame : Bytes) : Nat := (0x0F &&& frame.headD 0).toNat

/-- The frames of one message: the opcode stands on the first one, the others continue it, and the
final bit is set on the last one only. -/
def OneMessage (opCode : OpCodeType) (frames : List Bytes) : Prop :=
  frames.map opBits =
      (opCode.code : Nat) :: List.replicate (frames.length - 1) (OpCodeType.Continue.code : Nat) ∧
    frames.map finBit = List.replicate (frames.length - 1) false ++ [true]

namespace WebSocketEncoder

/-- A new encoder for a payload. -/
def encoder (isClient : Bool) (payload : Bytes) (opCode : OpCodeType) (frameSize : Nat) :
    WebSocketEncoder :=
  ((({ isClient } : WebSocketEncoder).setPayload payload).setOpCode opCode).setFrameSize frameSize

@[simp] theorem encoder_opCode (isClient : Bool) (payload : Bytes) (opCode : OpCodeType)
    (frameSize : Nat) : (encoder isClient payload opCode frameSize).opCode = opCode := rfl

@[simp] theorem encoder_frameSize (isClient : Bool) (payload : Bytes) (opCode : OpCodeType)
    (frameSize : Nat) : (encoder isClient payload opCode frameSize).frameSize = frameSize := rfl

theorem headD_encode (e : WebSocketEncoder) (mask : Nat) :
    (e.encode mask).outputBuf.headD 0 =
      Frame.firstByte (decide (e.frameSize > e.remaining)) 0
        (if e.offset ≠ 0 then OpCodeType.Continue else e.opCode).code := by
  rw [← first_byte_eq]
  simp [encode]

theorem finBit_encode (e : WebSocketEncoder) (mask : Nat) :
    finBit (e.encode mask).outputBuf = decide (e.frameSize > e.remaining) := by
  rw [finBit, headD_encode]
  exact (Frame.firstByte_bits _ _ _).2

theorem opBits_encode (e : WebSocketEncoder) (mask : Nat) :
    opBits (e.encode mask).outputBuf =
      (if e.offset ≠ 0 then OpCodeType.Continue else e.opCode).code := by
  rw [opBits, headD_encode]
  exact (Frame.firstByte_bits _ _ _).1

/-- Between two frames, with the payload written up to `offset`. -/
structure Writing (e : WebSocketEncoder) : Prop where
  positive : 1 ≤ e.frameSize
  offset_le : e.offset ≤ e.len

namespace Writing

variable {e : WebSocketEncoder}

theorem remaining_eq (h : Writing e) : e.remaining = e.len - e.offset := if_pos h.offset_le

theorem isComplete_iff (h : Writing e) : e.isComplete = true ↔ e.remaining = 0 := by
  have hle := h.offset_le
  rw [isComplete, decide_eq_true_eq, h.remaining_eq]
  omega

theorem chunkSize_eq (e : WebSocketEncoder) : e.chunkSize = min e.frameSize e.remaining := by
  unfold chunkSize
  split
  · omega
  · omega

theorem next (h : Writing e) (mask : Nat) : Writing (e.encode mask) := by
  refine ⟨h.positive, ?_⟩
  show e.offset + e.chunkSize ≤ e.len
  have hle := h.offset_le
  rw [chunkSize_eq, h.remaining_eq]
  omega

theorem remaining_next (h : Writing e) (mask : Nat) :
    (e.encode mask).remaining = e.remaining - e.frameSize := by
  rw [(h.next mask).remaining_eq, h.remaining_eq]
  show e.len - (e.offset + e.chunkSize) = e.len - e.offset - e.frameSize
  rw [chunkSize_eq, h.remaining_eq]
  omega

/-- The loop ends: a round for every byte that is left is enough. -/
theorem frames_isComplete {rounds : Nat} :
    ∀ {e : WebSocketEncoder} {masks : Nat → Nat}, Writing e → e.remaining ≤ rounds →
      (frames masks rounds e).2.isComplete = true := by
  induction rounds with
  | zero =>
    intro e masks h hrounds
    exact h.isComplete_iff.mpr (Nat.le_zero.mp hrounds)
  | succ rounds ih =>
    intro e masks h hrounds
    cases hc : e.isComplete with
    | true => rw [frames_of_isComplete hc, hc]
    | false =>
      rw [frames_succ hc]
      apply ih (h.next _)
      have hpos := h.positive
      rw [h.remaining_next]
      omega

/-- All frames but a shorter last one are as long as they may be, and only the shorter one has the
final bit. -/
theorem frames_finBits {rounds : Nat} :
    ∀ {e : WebSocketEncoder} {masks : Nat → Nat}, Writing e → e.remaining ≤ rounds →
      (frames masks rounds e).1.map (fun call => finBit call.2) =
        List.replicate (e.remaining / e.frameSize) false ++
          if e.frameSize ∣ e.remaining then [] else [true] := by
  induction rounds with
  | zero =>
    intro e masks h hrounds
    have hzero : e.remaining = 0 := Nat.le_zero.mp hrounds
    rw [frames, hzero]
    simp
  | succ rounds ih =>
    intro e masks h hrounds
    have hpos := h.positive
    cases hc : e.isComplete with
    | true =>
      rw [frames_of_isComplete hc, h.isComplete_iff.mp hc]
      simp
    | false =>
      have hne : e.remaining ≠ 0 := by
        intro hzero
        rw [h.isComplete_iff.mpr hzero] at hc
        cases hc
      rw [frames_succ hc, List.map_cons, finBit_encode,
        ih (h.next _) (by rw [h.remaining_next]; omega), h.remaining_next]
      show decide (e.frameSize > e.remaining) ::
        (List.replicate ((e.remaining - e.frameSize) / e.frameSize) false ++
          if e.frameSize ∣ e.remaining - e.frameSize then [] else [true]) = _
      by_cases hlast : e.frameSize > e.remaining
      · -- the shorter frame: nothing is left behind it
        have hdvd : ¬ e.frameSize ∣ e.remaining := by
          intro hd
          exact absurd (Nat.le_of_dvd (Nat.pos_of_ne_zero hne) hd) (Nat.not_le.mpr hlast)
        have hsub : e.remaining - e.frameSize = 0 := by omega
        rw [hsub, Nat.div_eq_of_lt hlast, if_neg hdvd, decide_eq_true hlast]
        simp
      · have hle : e.frameSize ≤ e.remaining := Nat.not_lt.mp hlast
        have hdvd := Nat.dvd_sub_iff_left hle (Nat.dvd_refl e.frameSize)
        rw [decide_eq_false hlast, Nat.div_eq_sub_div hpos hle, List.replicate_succ,
          List.cons_append]
        simp only [hdvd]

theorem frames_opBits_rest {rounds : Nat} :
    ∀ {e : WebSocketEncoder} {masks : Nat → Nat}, Writing e → e.offset ≠ 0 →
      ∀ call ∈ (frames masks rounds e).1, opBits call.2 = OpCodeType.Continue.code := by
  induction rounds with
  | zero =>
    intro e masks h hoff call hcall
    cases hcall
  | succ rounds ih =>
    intro e masks h hoff call hcall
    cases hc : e.isComplete with
    | true =>
      rw [frames_of_isComplete hc] at hcall
      cases hcall
    | false =>
      rw [frames_succ hc] at hcall
      rcases List.mem_cons.mp hcall with rfl | hcall
      · rw [opBits_encode, if_pos hoff]
      · refine ih (h.next _) ?_ call hcall
        show e.offset + e.chunkSize ≠ 0
        omega

theorem frames_opBits {rounds : Nat} {masks : Nat → Nat} (h : Writing e) (hoff : e.offset = 0)
    (hne : e.remaining ≠ 0) :
    (frames masks (rounds + 1) e).1.map (fun call => opBits call.2) =
      (e.opCode.code : Nat) :: List.replicate ((frames masks (rounds + 1) e).1.length - 1)
        (OpCodeType.Continue.code : Nat) := by
  have hc : e.isComplete = false := by
    rw [← Bool.not_eq_true, h.isComplete_iff]
    exact hne
  have hpos : (e.encode (masks 0)).offset ≠ 0 := by
    show e.offset + e.chunkSize ≠ 0
    have hsize := h.positive
    rw [chunkSize_eq]
    omega
  rw [frames_succ hc, List.map_cons, opBits_encode, if_neg (by simpa using hoff)]
  simp only [List.length_cons, Nat.add_sub_cancel, List.cons.injEq, true_and]
  rw [List.eq_replicate_iff, List.length_map]
  refine ⟨rfl, fun b hb => ?_⟩
  obtain ⟨call, hcall, rfl⟩ := List.mem_map.mp hb
  exact (h.next _).frames_opBits_rest hpos call hcall

end Writing

/-- **The frames of a message.** The loop of `ResponseWebSocketData` comes to its end, in both modes
and for every size of a frame; and its frames make up one message, with the opcode on the first
frame and the final bit on the last one, if and only if the size of a frame does not divide that of
the payload. -/
theorem final_frame_iff (isClient : Bool) (payload : Bytes) (opCode : OpCodeType) (frameSize : Nat)
    (masks : Nat → Nat) (hne : payload ≠ []) (hpos : 1 ≤ frameSize) :
    (frames masks payload.length (encoder isClient payload opCode frameSize)).2.isComplete = true ∧
      (OneMessage opCode ((frames masks payload.length
          (encoder isClient payload opCode frameSize)).1.map Prod.snd) ↔
        ¬ frameSize ∣ payload.length) := by
  have h : Writing (encoder isClient payload opCode frameSize) := ⟨hpos, Nat.zero_le _⟩
  have hlen : (encoder isClient payload opCode frameSize).remaining = payload.length :=
    h.remaining_eq
  have hlen' := List.length_pos_iff.mpr hne
  obtain ⟨rounds, hrounds⟩ : ∃ rounds, payload.length = rounds + 1 :=
    ⟨payload.length - 1, by omega⟩
  have hops := @Writing.frames_opBits _ rounds masks h rfl (by omega)
  have hfins := @Writing.frames_finBits _ _ masks h (Nat.le_of_eq hlen)
  rw [encoder_opCode] at hops
  rw [hlen, encoder_frameSize] at hfins
  refine ⟨h.frames_isComplete (Nat.le_of_eq hlen), ?_⟩
  rw [← hrounds] at hops
  generalize (frames masks payload.length (encoder isClient payload opCode frameSize)).1 = calls
    at hops hfins ⊢
  rw [OneMessage, List.map_map, List.map_map, List.length_map, Function.comp_def,
    Function.comp_def, hfins, and_iff_right hops]
  constructor
  · intro heq hdvd
    rw [if_pos hdvd, List.append_nil] at heq
    have htrue : true ∈ List.replicate (payload.length / frameSize) false := by
      have hmem : true ∈ List.replicate (calls.length - 1) false ++ [true] := by simp
      rwa [← heq] at hmem
    exact absurd (List.eq_of_mem_replicate htrue) (by decide)
  · intro hdvd
    rw [if_neg hdvd] at hfins ⊢
    have hcalls : calls.length = payload.length / frameSize + 1 := by
      simpa using congrArg List.length hfins
    rw [hcalls, Nat.add_sub_cancel]

/-- Five bytes in frames of two: three frames, the last one with the final bit. -/
theorem final_frame_five :
    OneMessage .Text ((frames (fun _ => 0) 5
      (encoder false [1, 2, 3, 4, 5] .Text 2)).1.map Prod.snd) :=
  (final_frame_iff false [1, 2, 3, 4, 5] .Text 2 (fun _ => 0) (by decide) (by decide)).2.mpr
    (by decide)

/-- Four bytes in frames of two: the message comes to no end. -/
theorem final_frame_missing :
    (frames (fun _ => 0) 4 (encoder false [1, 2, 3, 4] .Text 2)).2.isComplete = true ∧
      (frames (fun _ => 0) 4 (encoder false [1, 2, 3, 4] .Text 2)).1.map Prod.snd =
        [[0x01, 2, 1, 2], [0x00, 2, 3, 4]] ∧
      ¬ OneMessage .Text ((frames (fun _ => 0) 4
        (encoder false [1, 2, 3, 4] .Text 2)).1.map Prod.snd) := by
  have hframes : (frames (fun _ => 0) 4 (encoder false [1, 2, 3, 4] .Text 2)).1.map Prod.snd =
      [[0x01, 2, 1, 2], [0x00, 2, 3, 4]] := by decide
  refine ⟨by decide, hframes, ?_⟩
  rw [hframes]
  rintro ⟨-, hfins⟩
  revert hfins
  decide

/-! ## The payload of the frames -/

/-- The payload part of a frame, given with the encoder that wrote it: what comes behind the header,
and in client mode behind the key, unmasked with this key. -/
def payloadPart (call : WebSocketEncoder × Bytes) : Bytes :=
  let body := call.2.drop (1 + (lenBytes call.1.isClient call.1.chunkSize).length)
  if call.1.isClient then masked (body.take 4) 0 (body.drop 4) else body

theorem payloadPart_encode (e : WebSocketEncoder) (mask : Nat) :
    payloadPart (e, (e.encode mask).outputBuf) = e.data.take e.chunkSize := by
  have hbody : ∀ (b : UInt8) (len body : Bytes),
      (b :: (len ++ body)).drop (1 + len.length) = body := by
    intro b len body
    rw [Nat.add_comm, List.drop_succ_cons, List.drop_left]
  cases hc : e.isClient with
  | false =>
    simp only [payloadPart, encode, hc, hbody, Bool.not_false, if_true, Bool.false_eq_true,
      if_false]
  | true =>
    have hmask := masked_eq_mapIdx (store 4 mask) 0 (e.data.take e.chunkSize)
    simp only [Nat.zero_add, length_store] at hmask
    simp only [payloadPart, encode, hc, hbody, Bool.not_true, Bool.false_eq_true, if_false, if_true]
    rw [List.take_left' (length_store 4 mask), List.drop_left' (length_store 4 mask), ← hmask,
      masked_masked]

theorem frameCount_succ {r f : Nat} (hf : 1 ≤ f) (hr : r ≠ 0) :
    (r - f + f - 1) / f + 1 = (r + f - 1) / f := by
  have hleft : (r - f + f - 1) / f = (r - 1) / f := by
    by_cases hle : f ≤ r
    · rw [Nat.sub_add_cancel hle]
    · rw [show r - f = 0 by omega, Nat.zero_add, Nat.div_eq_of_lt (by omega),
        Nat.div_eq_of_lt (by omega)]
  rw [hleft, show r + f - 1 = (r - 1) + f by omega, Nat.add_div_right _ hf]

/-- Between two frames, with `data` pointing at what is left of the payload. -/
structure Pointing (e : WebSocketEncoder) : Prop extends Writing e where
  length_data : e.data.length = e.remaining

namespace Pointing

variable {e : WebSocketEncoder}

theorem next (h : Pointing e) (mask : Nat) : Pointing (e.encode mask) := by
  refine ⟨h.toWriting.next mask, ?_⟩
  show (e.data.drop e.chunkSize).length = _
  rw [h.remaining_next, List.length_drop, h.length_data, Writing.chunkSize_eq]
  omega

end Pointing

/-- What a run of the loop from `e` on has written when it ends: as many frames as are needed, every
one of them but the last full, each written at an offset inside the payload, and together they hold
what was left. -/
structure Delivers (e : WebSocketEncoder)
    (run : List (WebSocketEncoder × Bytes) × WebSocketEncoder) : Prop where
  count : run.1.length = (e.remaining + e.frameSize - 1) / e.frameSize
  full : ∀ call ∈ run.1.dropLast, (payloadPart call).length = e.frameSize
  offset_le : ∀ call ∈ run.1, call.1.offset ≤ call.1.len
  last_offset_le : run.2.offset ≤ run.2.len
  payload : (run.1.map payloadPart).flatten = e.data

namespace Pointing

variable {e : WebSocketEncoder}

theorem delivers_nil (h : Pointing e) (hc : e.isComplete = true) : Delivers e ([], e) := by
  have hzero := h.isComplete_iff.mp hc
  have hpos := h.positive
  have hdata : e.data = [] := List.length_eq_zero_iff.mp (h.length_data.trans hzero)
  refine ⟨?_, by simp, by simp, h.offset_le, by simp [hdata]⟩
  rw [hzero, Nat.zero_add, Nat.div_eq_of_lt (by omega)]
  rfl

theorem delivers_cons (h : Pointing e) (hc : e.isComplete = false) {mask : Nat}
    {calls : List (WebSocketEncoder × Bytes)} {last : WebSocketEncoder}
    (hd : Delivers (e.encode mask) (calls, last)) :
    Delivers e ((e, (e.encode mask).outputBuf) :: calls, last) := by
  have hpos := h.positive
  have hne : e.remaining ≠ 0 := by
    intro hzero
    rw [h.isComplete_iff.mpr hzero] at hc
    cases hc
  have hcount : calls.length = (e.remaining - e.frameSize + e.frameSize - 1) / e.frameSize := by
    rw [← h.remaining_next mask]
    exact hd.count
  refine ⟨?_, ?_, ?_, hd.last_offset_le, ?_⟩
  · rw [List.length_cons, hcount, frameCount_succ hpos hne]
  · intro call hcall
    cases calls with
    | nil => cases hcall
    | cons c rest =>
      rw [List.dropLast_cons_cons] at hcall
      rcases List.mem_cons.mp hcall with rfl | hcall
      · -- another frame follows, so this one is full
        have hmore : e.frameSize < e.remaining := by
          by_contra hle
          rw [show e.remaining - e.frameSize = 0 by omega, Nat.zero_add,
            Nat.div_eq_of_lt (by omega)] at hcount
          cases hcount
        rw [payloadPart_encode, List.length_take, h.length_data, Writing.chunkSize_eq]
        omega
      · exact hd.full call hcall
  · intro call hcall
    rcases List.mem_cons.mp hcall with rfl | hcall
    · exact h.offset_le
    · exact hd.offset_le call hcall
  · rw [List.map_cons, List.flatten_cons, hd.payload, payloadPart_encode]
    exact List.take_append_drop _ _

theorem delivers_frames {rounds : Nat} :
    ∀ {e : WebSocketEncoder} {masks : Nat → Nat}, Pointing e → e.remaining ≤ rounds →
      Delivers e (frames masks rounds e) := by
  induction rounds with
  | zero =>
    intro e masks h hrounds
    have hc : e.isComplete = true := h.isComplete_iff.mpr (Nat.le_zero.mp hrounds)
    rw [frames_of_isComplete hc]
    exact h.delivers_nil hc
  | succ rounds ih =>
    intro e masks h hrounds
    cases hc : e.isComplete with
    | true =>
      rw [frames_of_isComplete hc]
      exact h.delivers_nil hc
    | false =>
      have hpos := h.positive
      rw [frames_succ hc]
      exact h.delivers_cons hc (ih (h.next _) (by rw [h.remaining_next]; omega))

end Pointing

/-- **The frames of a payload.** For every payload, every size of a frame and both modes, the loop
ends after as many frames as are needed; every frame but the last carries as much as it may; the
offset stays within the payload; and the payload parts of the frames are the payload. -/
theorem frames_exact (isClient : Bool) (payload : Bytes) (opCode : OpCodeType) (frameSize : Nat)
    (masks : Nat → Nat) (hpos : 1 ≤ frameSize) (rounds : Nat) (hrounds : payload.length ≤ rounds) :
    let run := frames masks rounds (encoder isClient payload opCode frameSize)
    run.2.isComplete = true ∧
      run.1.length = (payload.length + frameSize - 1) / frameSize ∧
      (∀ call ∈ run.1.dropLast, (payloadPart call).length = frameSize) ∧
      (∀ call ∈ run.1, call.1.offset ≤ call.1.len) ∧ run.2.offset ≤ run.2.len ∧
      (run.1.map payloadPart).flatten = payload := by
  have hw : Writing (encoder isClient payload opCode frameSize) := ⟨hpos, Nat.zero_le _⟩
  have hlen : (encoder isClient payload opCode frameSize).remaining = payload.length :=
    hw.remaining_eq
  have h : Pointing (encoder isClient payload opCode frameSize) := ⟨hw, hlen.symm⟩
  have hle : (encoder isClient payload opCode frameSize).remaining ≤ rounds := hlen.symm ▸ hrounds
  have hd : Delivers _ (frames masks rounds (encoder isClient payload opCode frameSize)) :=
    h.delivers_frames hle
  refine ⟨hw.frames_isComplete hle, ?_, hd.full, hd.offset_le, hd.last_offset_le, hd.payload⟩
  rw [hd.count, hlen, encoder_frameSize]

/-- Five bytes in frames of two, in client mode. -/
theorem frames_exact_five :
    (frames (fun i => 7 * i) 5 (encoder true [1, 2, 3, 4, 5] .Text 2)).1.length = 3 ∧
      ((frames (fun i => 7 * i) 5 (encoder true [1, 2, 3, 4, 5] .Text 2)).1.map
        payloadPart).flatten = [1, 2, 3, 4, 5] := by
  obtain ⟨-, hcount, -, -, -, hparts⟩ :=
    frames_exact true [1, 2, 3, 4, 5] .Text 2 (fun i => 7 * i) (by decide) 5 (by decide)
  exact ⟨hcount, hparts⟩

end WebSocketEncoder

/-! ## The header of one frame -/

theorem LenForm.length_extended {form : LenForm} {n : Nat} (hn : n < form.limit) :
    (form.extended n).length =
      if form.code n = 126 then 2 else if form.code n = 127 then 8 else 0 := by
  cases form with
  | inline =>
    have hlt : n < 126 := hn
    rw [LenForm.code, if_neg (by omega), if_neg (by omega)]
    rfl
  | ext16 => rfl
  | ext64 => rfl

namespace WebSocketParser

/-- Where `ParseHeader` ends, for the second byte that it finds. -/
def headerEnd (b₁ : UInt8) : Nat :=
  2 + (if (0x7F &&& b₁).toNat = 126 then 2 else if (0x7F &&& b₁).toNat = 127 then 8 else 0) +
    if 0x80 &&& b₁ != 0 then 4 else 0

theorem parsePayloadLen_end {p q : WebSocketParser} (h : p.parsePayloadLen = (true, q)) :
    q.offset =
      p.offset + if p.payloadLen = 126 then 2 else if p.payloadLen = 127 then 8 else 0 := by
  unfold parsePayloadLen at h
  split at h
  · rename_i h126
    split at h
    · cases h
      rw [if_pos h126]
    · cases h
  rename_i h126
  rw [if_neg h126]
  split at h
  · rename_i h127
    split at h
    · cases h
      rw [if_pos h127]
    · cases h
  · rename_i h127
    cases h
    rw [if_neg h127, Nat.add_zero]

theorem parseMaskKey_end {p : WebSocketParser} {mask : Bool} (h : (p.parseMaskKey mask).1 = true) :
    (p.parseMaskKey mask).2.offset = p.offset + if mask then 4 else 0 := by
  unfold parseMaskKey at h ⊢
  dsimp only at h ⊢
  cases mask with
  | false => rfl
  | true =>
    simp only [if_true] at h ⊢
    split at h
    · rename_i hb
      rw [if_pos hb]
    · cases h

theorem parseHeader_end {p : WebSocketParser} {b₀ b₁ : UInt8} {tail : Bytes}
    (hc : p.inputCache = b₀ :: b₁ :: tail) (h : p.parseHeader.1 = true) :
    p.parseHeader.2.offset = headerEnd b₁ := by
  rw [parseHeader_cons_cons hc] at h ⊢
  rcases hq : (p.headerStart b₀ b₁).parsePayloadLen with ⟨ok, q⟩
  rw [hq] at h
  cases ok with
  | false => cases h
  | true =>
    dsimp only at h ⊢
    rw [parseMaskKey_end h, parsePayloadLen_end hq]
    rfl

end WebSocketParser

namespace WebSocketEncoder

/-- The second byte: the mask bit and the seven bits of a length. -/
theorem second_byte_bits (isClient : Bool) {code : Nat} (h : code < 128) :
    (0x80 &&& ((if isClient then 0x80 else 0 : UInt8) ||| UInt8.ofNat code) != 0) = isClient ∧
      (0x7F &&& ((if isClient then 0x80 else 0 : UInt8) ||| UInt8.ofNat code)).toNat = code :=
  WireHeader.secondByte_bits isClient h

/-- The length of the frame: the seven bits of the second byte, and how many bytes stand behind
it. -/
theorem lenBytes_cons (isClient : Bool) (n : Nat) :
    ∃ code ext, lenBytes isClient n =
        ((if isClient then 0x80 else 0 : UInt8) ||| UInt8.ofNat code) :: ext ∧
      (n > 0xFFFF ∧ code = 127 ∧ ext.length = 4 ∨
        n = 126 ∧ code = 126 ∧ ext = [] ∨
        Fits n ∧ code = (form n).code n ∧ ext = (form n).extended n) := by
  unfold lenBytes
  dsimp only
  split
  · rename_i hlong
    exact ⟨127, _, rfl, .inl ⟨hlong, rfl, by simp⟩⟩
  rename_i hle
  split
  · rename_i hgt
    have hmod : n % 2 ^ 16 = n := Nat.mod_eq_of_lt (by omega)
    have hform : form n = .ext16 := if_pos hgt
    refine ⟨126, _, rfl, .inr (.inr ⟨⟨by omega, by omega⟩, ?_, ?_⟩)⟩
    · rw [hform]
      rfl
    · rw [hform, hmod, store_htons]
      rfl
  · rename_i hgt
    have hform : form n = .inline := if_neg hgt
    by_cases h126 : n = 126
    · exact ⟨n, [], rfl, .inr (.inl ⟨h126, h126, rfl⟩)⟩
    · refine ⟨n, [], rfl, .inr (.inr ⟨⟨h126, by omega⟩, ?_, ?_⟩)⟩
      · rw [hform]
        rfl
      · rw [hform]
        rfl

/-- The header of the next frame is read back: its length, its mask bit, and where its payload
begins. -/
structure HeaderReadBack (e : WebSocketEncoder) (mask : Nat) (p : WebSocketParser) : Prop where
  complete : p.parseHeader.1 = true
  payloadLen : p.parseHeader.2.payloadLen = e.chunkSize
  maskKey : p.parseHeader.2.maskKey.isEmpty = !e.isClient
  offset : p.parseHeader.2.offset + e.chunkSize = (e.encode mask).outputBuf.length

/-- The parts of a frame: the first byte, the length, the key, and as many bytes as the length
says. -/
theorem encode_parts {e : WebSocketEncoder} (hdata : e.chunkSize ≤ e.data.length) (mask : Nat) :
    ∃ b₀ payload, (e.encode mask).outputBuf =
        b₀ :: (lenBytes e.isClient e.chunkSize ++
          ((if e.isClient then store 4 mask else []) ++ payload)) ∧
      payload.length = e.chunkSize := by
  have htake : (e.data.take e.chunkSize).length = e.chunkSize := by
    rw [List.length_take, Nat.min_eq_left hdata]
  cases hc : e.isClient with
  | true =>
    refine ⟨(e.encode mask).outputBuf.headD 0,
      (e.data.take e.chunkSize).mapIdx fun i b => b ^^^ (store 4 mask).getD (i % 4) 0,
      ?_, by simpa using htake⟩
    simp only [encode, hc]
    rfl
  | false =>
    refine ⟨(e.encode mask).outputBuf.headD 0, e.data.take e.chunkSize, ?_, htake⟩
    simp only [encode, hc]
    rfl

theorem parseMaskKey_mode {q : WebSocketParser} {isClient : Bool} {mask : Nat} {payload : Bytes}
    (hoff : q.offset ≤ q.inputCache.length)
    (hdrop : q.inputCache.drop q.offset = (if isClient then store 4 mask else []) ++ payload) :
    (q.parseMaskKey isClient).1 = true ∧
      (q.parseMaskKey isClient).2.payloadLen = q.payloadLen ∧
      (q.parseMaskKey isClient).2.maskKey = if isClient then store 4 mask else [] := by
  cases isClient with
  | true =>
    rw [parseMaskKey_full (length_store 4 mask) hoff hdrop]
    exact ⟨rfl, rfl, rfl⟩
  | false => exact ⟨rfl, rfl, rfl⟩

theorem parseHeader_mode {p : WebSocketParser} {b₀ : UInt8} {isClient : Bool} {form : LenForm}
    {n mask : Nat} {payload : Bytes} (hn : n < form.limit)
    (hp : p.inputCache =
      b₀ :: ((if isClient then 0x80 else 0 : UInt8) ||| UInt8.ofNat (form.code n)) ::
        (form.extended n ++ ((if isClient then store 4 mask else []) ++ payload))) :
    p.parseHeader.1 = true ∧ p.parseHeader.2.payloadLen = n ∧
      p.parseHeader.2.maskKey = if isClient then store 4 mask else [] := by
  obtain ⟨hmask, hbits⟩ := second_byte_bits isClient (LenForm.code_lt hn)
  have hin : 2 ≤ p.inputCache.length := by
    rw [hp]
    simp
  have hdrop : p.inputCache.drop 2 =
      form.extended n ++ ((if isClient then store 4 mask else []) ++ payload) := by
    rw [hp]
    rfl
  rw [parseHeader_cons_cons hp, hmask,
    parsePayloadLen_full (p := p.headerStart b₀ _) hn hbits hin hdrop]
  refine @parseMaskKey_mode _ _ _ payload ?_ ?_
  · show 2 + (form.extended n).length ≤ p.inputCache.length
    rw [hp]
    simp
    omega
  · show p.inputCache.drop (2 + (form.extended n).length) = _
    rw [← List.drop_drop, hdrop, List.drop_left]

section Header

variable {e : WebSocketEncoder} {mask : Nat} {p : WebSocketParser}

/-- Where `ParseHeader` ends, against where the payload begins: it must read as many bytes of an
extended length as were written. -/
theorem offset_iff (hdata : e.chunkSize ≤ e.data.length)
    (hp : p.inputCache = (e.encode mask).outputBuf) {code : Nat} {ext : Bytes} (hcode : code < 128)
    (hlen : lenBytes e.isClient e.chunkSize =
      ((if e.isClient then 0x80 else 0 : UInt8) ||| UInt8.ofNat code) :: ext)
    (hok : p.parseHeader.1 = true) :
    p.parseHeader.2.offset + e.chunkSize = (e.encode mask).outputBuf.length ↔
      ext.length = if code = 126 then 2 else if code = 127 then 8 else 0 := by
  obtain ⟨b₀, payload, hbuf, hpay⟩ := encode_parts hdata mask
  obtain ⟨hmask, hbits⟩ := second_byte_bits e.isClient hcode
  rw [hlen, List.cons_append] at hbuf
  rw [parseHeader_end (hp.trans hbuf) hok, headerEnd, hmask, hbits, hbuf]
  have hkey : (if e.isClient then store 4 mask else []).length = if e.isClient then 4 else 0 := by
    cases e.isClient <;> simp
  simp only [List.length_cons, List.length_append, hpay, hkey]
  omega

theorem headerReadBack_of_fits (hdata : e.chunkSize ≤ e.data.length)
    (hp : p.inputCache = (e.encode mask).outputBuf) (hfit : Fits e.chunkSize) :
    HeaderReadBack e mask p := by
  obtain ⟨code, ext, hlen, hcase⟩ := lenBytes_cons e.isClient e.chunkSize
  obtain ⟨rfl, rfl⟩ : code = (form e.chunkSize).code e.chunkSize ∧
      ext = (form e.chunkSize).extended e.chunkSize := by
    obtain ⟨hne, hle⟩ := hfit
    rcases hcase with ⟨hlong, -⟩ | ⟨h126, -⟩ | ⟨-, h⟩
    · omega
    · omega
    · exact h
  have hlim := lt_limit hfit
  obtain ⟨b₀, payload, hbuf, -⟩ := encode_parts hdata mask
  rw [hlen, List.cons_append] at hbuf
  obtain ⟨hok, hpayloadLen, hkey⟩ := parseHeader_mode hlim (hp.trans hbuf)
  refine ⟨hok, hpayloadLen, ?_, ?_⟩
  · rw [hkey]
    cases e.isClient <;> rfl
  · exact (offset_iff hdata hp (LenForm.code_lt hlim) hlen hok).mpr (LenForm.length_extended hlim)

/-- **The header of a frame.** Whatever the encoder has left to send and whatever the size of its
frames: `ParseHeader` reads the header of the next frame back, with its length, its mask bit and the
place where the payload begins, if and only if the frame has not exactly 126 bytes and not more than
65535. -/
theorem header_read_iff (hdata : e.chunkSize ≤ e.data.length)
    (hp : p.inputCache = (e.encode mask).outputBuf) :
    HeaderReadBack e mask p ↔ e.chunkSize ≠ 126 ∧ e.chunkSize ≤ 0xFFFF := by
  refine ⟨fun h => ?_, headerReadBack_of_fits hdata hp⟩
  obtain ⟨code, ext, hlen, hcase⟩ := lenBytes_cons e.isClient e.chunkSize
  rcases hcase with ⟨-, rfl, hext⟩ | ⟨-, rfl, rfl⟩ | ⟨hfit, -⟩
  · -- four bytes of the length are written, and eight are read
    have hend := (offset_iff hdata hp (by decide) hlen h.complete).mp h.offset
    rw [hext] at hend
    cases hend
  · -- no byte of a length follows, and two are read
    have hend := (offset_iff hdata hp (by decide) hlen h.complete).mp h.offset
    cases hend
  · exact hfit

end Header

/-- A frame of five bytes in client mode. -/
theorem header_read_five :
    HeaderReadBack (encoder true [1, 2, 3, 4, 5] .Text 8) 0x04030201
      { inputCache := ((encoder true [1, 2, 3, 4, 5] .Text 8).encode 0x04030201).outputBuf } :=
  (header_read_iff (by decide) rfl).mpr (by decide)

/-- A frame of 126 bytes: the first two bytes of the payload are taken for its length. -/
theorem header_misread :
    (encoder false (List.replicate 126 0) .Text 1446).chunkSize = 126 ∧
      ({ inputCache := ((encoder false (List.replicate 126 0) .Text 1446).encode 0).outputBuf } :
        WebSocketParser).parseHeader.2.payloadLen = 0 ∧
      ¬ HeaderReadBack (encoder false (List.replicate 126 0) .Text 1446) 0
        { inputCache :=
            ((encoder false (List.replicate 126 0) .Text 1446).encode 0).outputBuf } := by
  refine ⟨by decide +kernel, by decide +kernel, fun h => ?_⟩
  have hlen := h.payloadLen
  revert hlen
  decide +kernel

end WebSocketEncoder

end Http
end CoSocket
