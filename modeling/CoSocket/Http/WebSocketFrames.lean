import CoSocket.Lib.Cut
import CoSocket.Http.Frame

/-!
# Http.WebSocketFrames

`WebSocketParser` on the bytes of masked frames. `Midway f acc pre p` is the state of a parser that
has got the bytes `pre` of the frame `f`, the payload `acc` of the message being complete before it;
`parse_midway` and `parse_end_of_valid` are what `Parse` does with the next chunk, which stays
inside the frame or brings its last byte.

`delivers_iff_refines` is about whole streams: the messages arrive as they were sent and no byte is
discarded, if and only if no chunk holds bytes of two frames.
-/

namespace CoSocket
namespace Http

open Base Cut

namespace WebSocketParser

/-! ## Reading a header -/

theorem haveBytes_eq {p : WebSocketParser} (h : p.offset ≤ p.inputCache.length) (len : Nat) :
    p.haveBytes len = decide (len ≤ (p.inputCache.drop p.offset).length) := by
  unfold haveBytes available
  rw [if_pos h, List.length_drop]

theorem haveBytes_iff {p : WebSocketParser} (h : p.offset ≤ p.inputCache.length) {len : Nat} :
    p.haveBytes len = true ↔ p.offset + len ≤ p.inputCache.length := by
  rw [haveBytes_eq h, decide_eq_true_eq, List.length_drop]
  omega

/-- The state in which `ParseHeader` has read the first two bytes. -/
def headerStart (p : WebSocketParser) (b₀ b₁ : UInt8) : WebSocketParser :=
  { p with
    opCode := (0x0F &&& b₀).toNat
    fin := 0x80 &&& b₀ != 0
    payloadLen := (0x7F &&& b₁).toNat
    offset := 2 }

theorem parseHeader_nil {p : WebSocketParser} (h : p.inputCache = []) :
    p.parseHeader = (false, { p with offset := 0 }) := by
  simp [parseHeader, haveBytes, available, h]

theorem parseHeader_singleton {p : WebSocketParser} {b₀ : UInt8} (h : p.inputCache = [b₀]) :
    p.parseHeader = (false, { p with
      opCode := (0x0F &&& b₀).toNat
      fin := 0x80 &&& b₀ != 0
      offset := 1 }) := by
  simp [parseHeader, haveBytes, available, dataByte, h]

theorem parseHeader_cons_cons {p : WebSocketParser} {b₀ b₁ : UInt8} {tail : Bytes}
    (h : p.inputCache = b₀ :: b₁ :: tail) :
    p.parseHeader =
      match (p.headerStart b₀ b₁).parsePayloadLen with
      | (false, p) => (false, p)
      | (true, p) => p.parseMaskKey (0x80 &&& b₁ != 0) := by
  rcases hq : (p.headerStart b₀ b₁).parsePayloadLen with ⟨ok, q⟩
  simp [headerStart, h] at hq
  cases ok <;> simp [parseHeader, haveBytes, available, dataByte, h, hq]

theorem headerStart_inside {p : WebSocketParser} {b₀ b₁ : UInt8} {tail : Bytes}
    (h : p.inputCache = b₀ :: b₁ :: tail) :
    (p.headerStart b₀ b₁).offset ≤ (p.headerStart b₀ b₁).inputCache.length := by
  simp [headerStart, h]

theorem parsePayloadLen_full {p : WebSocketParser} {form : LenForm} {n : Nat} {tail : Bytes}
    (hn : n < form.limit) (hlen : p.payloadLen = form.code n)
    (hoff : p.offset ≤ p.inputCache.length)
    (hdrop : p.inputCache.drop p.offset = form.extended n ++ tail) :
    p.parsePayloadLen =
      (true, { p with payloadLen := n, offset := p.offset + (form.extended n).length }) := by
  have hb : ∀ len, p.haveBytes len = decide (len ≤ (form.extended n ++ tail).length) := by
    intro len
    rw [haveBytes_eq hoff, hdrop]
  unfold parsePayloadLen data
  rw [hlen, hb, hb, hdrop]
  cases form with
  | inline =>
    have h1 : n ≠ 126 := Nat.ne_of_lt hn
    have h2 : n ≠ 127 := Nat.ne_of_lt (Nat.lt_succ_of_lt hn)
    obtain rfl : p.payloadLen = n := hlen
    simp [LenForm.code, LenForm.extended, h1, h2]
  | ext16 =>
    simp [LenForm.code, LenForm.extended, ntohs_load_networkBytes hn]
  | ext64 =>
    simp [LenForm.code, LenForm.extended, ntohll_load_networkBytes hn]

theorem parsePayloadLen_short {p : WebSocketParser} {form : LenForm} {n : Nat}
    (hn : n < form.limit) (hlen : p.payloadLen = form.code n)
    (hoff : p.offset ≤ p.inputCache.length)
    (hlt : (p.inputCache.drop p.offset).length < (form.extended n).length) :
    p.parsePayloadLen = (false, p) := by
  unfold parsePayloadLen
  rw [hlen, haveBytes_eq hoff, haveBytes_eq hoff]
  cases form with
  | inline => simp [LenForm.extended] at hlt
  | ext16 =>
    simp only [LenForm.extended, length_networkBytes] at hlt
    rw [if_pos (show LenForm.ext16.code n = 126 from rfl), if_neg (by simpa using hlt)]
  | ext64 =>
    simp only [LenForm.extended, length_networkBytes] at hlt
    rw [if_neg (show ¬ LenForm.ext64.code n = 126 by simp [LenForm.code]),
      if_pos (show LenForm.ext64.code n = 127 from rfl), if_neg (by simpa using hlt)]

theorem parseMaskKey_full {p : WebSocketParser} {key tail : Bytes} (hk : key.length = 4)
    (hoff : p.offset ≤ p.inputCache.length) (hdrop : p.inputCache.drop p.offset = key ++ tail) :
    p.parseMaskKey true = (true, { p with maskKey := key, offset := p.offset + 4 }) := by
  have hb : haveBytes { p with maskKey := [] } 4 = true := by
    rw [haveBytes_eq (p := { p with maskKey := [] }) hoff]
    simp [hdrop, hk]
  simp [parseMaskKey, hb, data, hdrop, hk]

theorem parseMaskKey_short {p : WebSocketParser} (hoff : p.offset ≤ p.inputCache.length)
    (hlt : (p.inputCache.drop p.offset).length < 4) : (p.parseMaskKey true).1 = false := by
  have hb : haveBytes { p with maskKey := [] } 4 = false := by
    rw [haveBytes_eq (p := { p with maskKey := [] }) hoff]
    simpa using hlt
  simp [parseMaskKey, hb]

/-- What `ParseHeader` leaves behind when the header is complete. -/
structure HeaderRead (f : Frame) (p : WebSocketParser) : Prop where
  opCode : p.opCode = f.opCode
  fin : p.fin = f.fin
  payloadLen : p.payloadLen = f.payload.length
  offset : p.offset = f.header.length
  maskKey : p.maskKey = f.key

theorem parseHeader_full {p : WebSocketParser} {f : Frame} {rest : Bytes}
    (h : p.inputCache = f.header ++ rest) :
    p.parseHeader.1 = true ∧ HeaderRead f p.parseHeader.2 := by
  obtain ⟨hop, hfin⟩ := Frame.firstByte_bits f.fin f.rsv f.opCode
  obtain ⟨hmask, hlen⟩ := Frame.secondByte_bits (LenForm.code_lt f.fits)
  have hcache : p.inputCache = Frame.firstByte f.fin f.rsv f.opCode ::
      Frame.secondByte (f.form.code f.payload.length) ::
        (f.form.extended f.payload.length ++ (f.key ++ rest)) := by
    rw [h, Frame.header]
    simp
  have hstart : (p.headerStart (Frame.firstByte f.fin f.rsv f.opCode)
      (Frame.secondByte (f.form.code f.payload.length))).inputCache.drop 2 =
        f.form.extended f.payload.length ++ (f.key ++ rest) := by
    simp [headerStart, hcache]
  rw [parseHeader_cons_cons hcache, hmask,
    parsePayloadLen_full f.fits hlen (headerStart_inside hcache) hstart]
  dsimp only
  rw [@parseMaskKey_full _ f.key rest f.key_length]
  · refine ⟨rfl, hop, hfin, rfl, ?_, rfl⟩
    simp [headerStart, Frame.header, f.key_length]
    omega
  · simp [headerStart, hcache]
    omega
  · simp [headerStart, hcache, Nat.add_comm 2]

theorem parseHeader_short {p : WebSocketParser} {f : Frame} (h : p.inputCache <+: f.header)
    (hlt : p.inputCache.length < f.header.length) : p.parseHeader.1 = false := by
  match hc : p.inputCache with
  | [] => rw [parseHeader_nil hc]
  | [b₀] => rw [parseHeader_singleton hc]
  | b₀ :: b₁ :: tail =>
    rw [hc, Frame.header] at h
    obtain ⟨rfl, h'⟩ := List.cons_prefix_cons.mp h
    obtain ⟨rfl, htail⟩ := List.cons_prefix_cons.mp h'
    obtain ⟨hmask, hlen⟩ := Frame.secondByte_bits (LenForm.code_lt f.fits)
    have hdrop : (p.headerStart (Frame.firstByte f.fin f.rsv f.opCode)
        (Frame.secondByte (f.form.code f.payload.length))).inputCache.drop 2 = tail := by
      simp [headerStart, hc]
    rw [parseHeader_cons_cons hc, hmask]
    rcases Nat.lt_or_ge tail.length (f.form.extended f.payload.length).length with hlt' | hge
    · rw [parsePayloadLen_short f.fits hlen (headerStart_inside hc)]
      rw [show (p.headerStart _ _).offset = 2 from rfl, hdrop]
      exact hlt'
    · -- the extended length is there, and the key is not
      obtain ⟨key, rfl⟩ : ∃ key, tail = f.form.extended f.payload.length ++ key := by
        obtain ⟨key, hkey⟩ := List.prefix_of_prefix_length_le (List.prefix_append _ _) htail hge
        exact ⟨key, hkey.symm⟩
      have hkey : key.length < 4 := by
        rw [hc] at hlt
        simp only [Frame.header, List.length_cons, List.length_append, f.key_length] at hlt
        omega
      rw [parsePayloadLen_full f.fits hlen (headerStart_inside hc) hdrop]
      refine parseMaskKey_short ?_ ?_
      · simp [headerStart, hc]
        omega
      · simpa [headerStart, hc, Nat.add_comm 2] using hkey

/-- `q` differs from `p` in nothing but what `ParseHeader` reads. -/
def SameCache (p q : WebSocketParser) : Prop :=
  q.inputCache = p.inputCache ∧ q.payload = p.payload ∧ q.complete = p.complete

theorem parsePayloadLen_sameCache (p : WebSocketParser) : SameCache p p.parsePayloadLen.2 := by
  unfold parsePayloadLen
  split
  · split <;> exact ⟨rfl, rfl, rfl⟩
  · split
    · split <;> exact ⟨rfl, rfl, rfl⟩
    · exact ⟨rfl, rfl, rfl⟩

theorem parseMaskKey_sameCache (p : WebSocketParser) (mask : Bool) :
    SameCache p (p.parseMaskKey mask).2 := by
  unfold parseMaskKey
  dsimp only
  split
  · split <;> exact ⟨rfl, rfl, rfl⟩
  · exact ⟨rfl, rfl, rfl⟩

theorem SameCache.trans {p q r : WebSocketParser} (h : SameCache p q) (h' : SameCache q r) :
    SameCache p r :=
  ⟨h'.1.trans h.1, h'.2.1.trans h.2.1, h'.2.2.trans h.2.2⟩

theorem parseHeader_sameCache (p : WebSocketParser) : SameCache p p.parseHeader.2 := by
  unfold parseHeader
  dsimp only
  split
  · exact ⟨rfl, rfl, rfl⟩
  split
  · exact ⟨rfl, rfl, rfl⟩
  generalize hq : WebSocketParser.mk _ _ _ _ _ _ _ _ _ = q
  have hpq : SameCache p q := by rw [← hq]; exact ⟨rfl, rfl, rfl⟩
  have h := hpq.trans (parsePayloadLen_sameCache q)
  split
  · rename_i r hr
    rw [hr] at h
    exact h
  · rename_i r hr
    rw [hr] at h
    exact h.trans (parseMaskKey_sameCache r _)

/-! ## The payload -/

theorem unmask_eq (p : WebSocketParser) (i n : Nat)
    (h : p.offset + n ≤ p.inputCache.length) :
    p.unmask i n = { p with
      payload := p.payload ++ masked p.maskKey i ((p.inputCache.drop p.offset).take n)
      offset := p.offset + n } := by
  induction n generalizing p i with
  | zero => simp [unmask, masked]
  | succ n ih =>
    have hlt : p.offset < p.inputCache.length := by omega
    rw [unmask, ih _ _ (by simpa [Nat.add_assoc, Nat.add_comm 1] using h)]
    rw [List.drop_eq_getElem_cons hlt, List.take_succ_cons, masked]
    simp [dataByte, hlt]
    omega

/-- The parser has got the bytes `pre` of the frame `f`, and the payload `acc` before it. -/
structure Midway (f : Frame) (acc pre : Bytes) (p : WebSocketParser) : Prop where
  cache : p.inputCache = pre
  payload : p.payload = acc
  complete : p.complete = false
  header : p.headerComplete = true → f.header <+: pre ∧ HeaderRead f p

/-- A frame that `IsValidFrame` accepts behind the payload `acc`. -/
structure Accepted (acc : Bytes) (f : Frame) : Prop where
  opCode : ∃ code, OpCodeType.ofCode f.opCode = some code ∧ (code = .Continue → acc ≠ [])
  size : acc.length + f.payload.length ≤ kMaxLength

theorem isValidFrame_of_accepted {f : Frame} {acc : Bytes} {p : WebSocketParser}
    (h : Accepted acc f) (hr : HeaderRead f p) (hp : p.payload = acc) :
    p.isValidFrame = true := by
  obtain ⟨⟨code, hcode, hcont⟩, hsize⟩ := h
  have hkey : p.maskKey.isEmpty = false := by
    rw [hr.maskKey, List.isEmpty_eq_false_iff, ← List.length_pos_iff, f.key_length]
    decide
  have hop : p.checkOpCode = true := by
    unfold checkOpCode
    rw [hr.opCode, hcode, hp]
    cases code with
    | Continue => simpa using hcont rfl
    | _ => rfl
  have hlen : (p.payload.length + p.payloadLen) % 2 ^ 64 = acc.length + f.payload.length := by
    rw [hp, hr.payloadLen]
    refine Nat.mod_eq_of_lt (Nat.lt_of_le_of_lt hsize ?_)
    decide
  unfold isValidFrame
  rw [hkey, hop, hlen]
  simpa using hsize

theorem header_prefix_encode (f : Frame) : f.header <+: f.encode := List.prefix_append _ _

theorem collect_of_complete {p : WebSocketParser} (hh : p.headerComplete = true) (data : Bytes) :
    p.collect data = { p with inputCache := p.inputCache ++ data } := by
  simp [collect, hh]

theorem collect_of_incomplete {p : WebSocketParser} (hh : p.headerComplete = false)
    (data : Bytes) :
    p.collect data = { (parseHeader { p with inputCache := p.inputCache ++ data }).2 with
      headerComplete := (parseHeader { p with inputCache := p.inputCache ++ data }).1 } := by
  simp [collect, hh]

theorem collect_midway {f : Frame} {acc pre data : Bytes} {p : WebSocketParser}
    (h : Midway f acc pre p) (hcomp : pre ++ data <+: f.encode ∨ f.encode <+: pre ++ data) :
    Midway f acc (pre ++ data) (p.collect data) ∧
      ((p.collect data).headerComplete = true ↔ f.header <+: pre ++ data) := by
  cases hh : p.headerComplete with
  | true =>
    obtain ⟨hpre, hread⟩ := h.header hh
    have hcol := collect_of_complete hh data
    rw [h.cache] at hcol
    have hfull : f.header <+: pre ++ data := hpre.trans (List.prefix_append _ _)
    rw [hcol]
    exact ⟨⟨rfl, h.payload, h.complete, fun _ =>
      ⟨hfull, hread.opCode, hread.fin, hread.payloadLen, hread.offset, hread.maskKey⟩⟩,
      fun _ => hfull, fun _ => hh⟩
  | false =>
    obtain ⟨hc, hp, hcm⟩ := parseHeader_sameCache { p with inputCache := pre ++ data }
    have hcol := collect_of_incomplete hh data
    rw [h.cache] at hcol
    have hiff : (parseHeader { p with inputCache := pre ++ data }).1 = true ↔
        f.header <+: pre ++ data := by
      constructor
      · intro htrue
        by_contra hnot
        have hshort : pre ++ data <+: f.header := by
          rcases hcomp with hle | hge
          · exact (List.prefix_or_prefix_of_prefix hle (header_prefix_encode f)).resolve_right hnot
          · exact absurd ((header_prefix_encode f).trans hge) hnot
        have hlt : (pre ++ data).length < f.header.length := by
          refine Nat.lt_of_le_of_ne hshort.length_le fun he => hnot ?_
          rw [hshort.eq_of_length he]
        rw [parseHeader_short hshort hlt] at htrue
        cases htrue
      · rintro ⟨rest, hrest⟩
        exact (parseHeader_full hrest.symm).1
    rw [hcol]
    refine ⟨⟨hc, hp.trans h.payload, hcm.trans h.complete, fun htrue => ?_⟩, hiff⟩
    obtain ⟨rest, hrest⟩ := hiff.mp htrue
    obtain ⟨h1, h2, h3, h4, h5⟩ :=
      (parseHeader_full (p := { p with inputCache := pre ++ data }) hrest.symm).2
    exact ⟨⟨rest, hrest⟩, h1, h2, h3, h4, h5⟩

/-- A chunk that stays inside the frame is kept. -/
theorem parse_midway {f : Frame} {acc pre data : Bytes} {p : WebSocketParser}
    (h : Midway f acc pre p) (hacc : Accepted acc f) (hdata : data ≠ [])
    (hpre : pre ++ data <+: f.encode) (hlt : (pre ++ data).length < f.encode.length) :
    (p.parse data).1 = true ∧ Midway f acc (pre ++ data) (p.parse data).2 ∧
      p.discarded data = [] := by
  obtain ⟨hmid, -⟩ := collect_midway h (.inl hpre)
  have hne : data.isEmpty = false := by simpa using hdata
  unfold parse discarded
  simp only [hne, Bool.false_eq_true, if_false]
  cases hh : (p.collect data).headerComplete with
  | false => exact ⟨rfl, hmid, by simp⟩
  | true =>
    obtain ⟨hfull, hread⟩ := hmid.header hh
    -- the header is there, and the payload is not
    have hle := hfull.length_le
    have hbytes : (p.collect data).haveBytes (p.collect data).payloadLen = false := by
      rw [haveBytes_eq (by rw [hread.offset, hmid.cache]; exact hle), hread.payloadLen,
        hread.offset, hmid.cache]
      simp only [Frame.encode, List.length_append, length_masked] at hlt hle
      simp only [decide_eq_false_iff_not, List.length_drop, List.length_append]
      omega
    rw [isValidFrame_of_accepted hacc hread hmid.payload]
    simp only [Bool.not_true, Bool.false_eq_true, if_false, processPayload, hbytes,
      Bool.not_false, if_true, Bool.and_false]
    exact ⟨trivial, hmid, trivial⟩

/-- A parser between two frames: nothing in the cache, and the payload `acc` so far. -/
structure Between (acc : Bytes) (p : WebSocketParser) : Prop where
  cache : p.inputCache = []
  payload : p.payload = acc
  headerComplete : p.headerComplete = false

theorem Between.midway {acc : Bytes} {p : WebSocketParser} (h : Between acc p)
    (hc : p.complete = false) (f : Frame) : Midway f acc [] p where
  cache := h.cache
  payload := h.payload
  complete := hc
  header hh := by rw [h.headerComplete] at hh; cases hh

theorem collect_end {f : Frame} {acc pre data rest : Bytes} {p : WebSocketParser}
    (h : Midway f acc pre p) (hend : pre ++ data = f.encode ++ rest) :
    (p.collect data).headerComplete = true ∧ HeaderRead f (p.collect data) ∧
      (p.collect data).payload = acc := by
  obtain ⟨hmid, hhead⟩ := collect_midway h (.inr ⟨rest, hend.symm⟩)
  have hfull : f.header <+: pre ++ data := by
    rw [hend]
    exact (header_prefix_encode f).trans (List.prefix_append _ _)
  have hh := hhead.mpr hfull
  exact ⟨hh, (hmid.header hh).2, hmid.payload⟩

/-- The chunk with the last byte of the frame, when the frame is valid: its payload is appended, and
what the chunk holds behind it is discarded. -/
theorem parse_end_of_valid {f : Frame} {acc pre data rest : Bytes} {p : WebSocketParser}
    (h : Midway f acc pre p) (hvalid : (p.collect data).isValidFrame = true) (hdata : data ≠ [])
    (hend : pre ++ data = f.encode ++ rest) :
    (p.parse data).1 = true ∧ Between (acc ++ f.payload) (p.parse data).2 ∧
      (p.parse data).2.complete = f.fin ∧ p.discarded data = rest := by
  obtain ⟨hh, hread, hpayload⟩ := collect_end h hend
  have hne : data.isEmpty = false := by simpa using hdata
  have hcache : (p.collect data).inputCache =
      f.header ++ (masked f.key 0 f.payload ++ rest) := by
    rw [(collect_midway h (.inr ⟨rest, hend.symm⟩)).1.cache, hend, Frame.encode,
      List.append_assoc]
  have hbytes : (p.collect data).haveBytes (p.collect data).payloadLen = true := by
    rw [haveBytes_eq (by rw [hread.offset, hcache]; simp), hread.payloadLen, hread.offset, hcache]
    simp
  have hloop := unmask_eq (p.collect data) 0 (p.collect data).payloadLen (by
    rw [hread.offset, hread.payloadLen, hcache]
    simp)
  rw [hread.maskKey, hread.offset, hread.payloadLen, hcache, List.drop_left,
    List.take_left' (length_masked _ _ _), masked_masked, hpayload] at hloop
  unfold parse discarded
  simp only [hne, hh, hvalid, hbytes, processPayload,
    Bool.not_true, Bool.not_false, Bool.false_eq_true, if_false, if_true, Bool.and_true]
  rw [hread.payloadLen, hloop]
  refine ⟨trivial, ⟨rfl, rfl, rfl⟩, hread.fin, ?_⟩
  rw [← List.append_assoc]
  exact List.drop_left' (by simp)

theorem reset_between (p : WebSocketParser) :
    Between [] p.reset ∧ p.reset.complete = false :=
  ⟨⟨rfl, rfl, rfl⟩, rfl⟩

end WebSocketParser

/-! ## Streams of frames -/

/-- The payload of the message in progress after the frame. -/
def Frame.carry (f : Frame) (acc : Bytes) : Bytes := if f.fin then [] else acc ++ f.payload

/-- The payloads that a stream of frames completes, `acc` being the one in progress. -/
def deliveries (acc : Bytes) : List Frame → List Bytes
  | [] => []
  | f :: fs => if f.fin then (acc ++ f.payload) :: deliveries (f.carry acc) fs
    else deliveries (f.carry acc) fs

/-- Every frame of the stream is accepted where it stands. -/
def AllAccepted (acc : Bytes) : List Frame → Prop
  | [] => True
  | f :: fs => WebSocketParser.Accepted acc f ∧ AllAccepted (f.carry acc) fs

namespace Session

open WebSocketParser

/-- The session is between two frames of a stream, the payload in progress being `acc`. -/
structure Ready (acc : Bytes) (s : Session) : Prop where
  between : Between acc s.parser
  complete : s.parser.complete = false
  failed : s.failed = false

/-- The session is inside the frame `f`. -/
structure Inside (f : Frame) (acc pre : Bytes) (s : Session) : Prop where
  midway : Midway f acc pre s.parser
  failed : s.failed = false

theorem Ready.inside {acc : Bytes} {s : Session} (h : Ready acc s) (f : Frame) :
    Inside f acc [] s :=
  ⟨h.between.midway h.complete f, h.failed⟩

theorem ready_init : Ready [] {} := ⟨⟨rfl, rfl, rfl⟩, rfl, rfl⟩

theorem receive_midway {f : Frame} {acc pre chunk : Bytes} {s : Session} (h : Inside f acc pre s)
    (hacc : Accepted acc f) (hne : chunk ≠ []) (hpre : pre ++ chunk <+: f.encode)
    (hlt : (pre ++ chunk).length < f.encode.length) :
    Inside f acc (pre ++ chunk) (s.receive chunk) ∧
      (s.receive chunk).delivered = s.delivered ∧ (s.receive chunk).lost = s.lost := by
  obtain ⟨hok, hmid, hdis⟩ := parse_midway h.midway hacc hne hpre hlt
  unfold receive
  rw [h.failed, hdis]
  generalize hparse : s.parser.parse chunk = r at hok hmid
  obtain ⟨ok, p⟩ := r
  simp only at hok hmid
  subst hok
  simp only [Bool.false_eq_true, if_false, hmid.complete, List.append_nil]
  exact ⟨⟨hmid, rfl⟩, trivial, trivial⟩

theorem receive_end_of_valid {f : Frame} {acc pre chunk rest : Bytes} {s : Session}
    (h : Inside f acc pre s) (hvalid : (s.parser.collect chunk).isValidFrame = true)
    (hne : chunk ≠ []) (hend : pre ++ chunk = f.encode ++ rest) :
    Ready (f.carry acc) (s.receive chunk) ∧
      (s.receive chunk).delivered =
        s.delivered ++ (if f.fin then [acc ++ f.payload] else []) ∧
      (s.receive chunk).lost = s.lost ++ rest := by
  obtain ⟨hok, hbet, hfin, hdis⟩ := parse_end_of_valid h.midway hvalid hne hend
  unfold receive
  rw [h.failed, hdis]
  generalize hparse : s.parser.parse chunk = r at hok hbet hfin
  obtain ⟨ok, p⟩ := r
  simp only at hok hbet hfin
  subst hok
  simp only [Bool.false_eq_true, if_false, hfin, Frame.carry]
  cases hf : f.fin with
  | true =>
    simp only [if_true, hbet.payload]
    exact ⟨⟨(reset_between p).1, (reset_between p).2, rfl⟩, trivial, trivial⟩
  | false =>
    simp only [Bool.false_eq_true, if_false, List.append_nil]
    exact ⟨⟨hbet, hfin.trans hf, rfl⟩, trivial, trivial⟩

theorem receive_end {f : Frame} {acc pre chunk rest : Bytes} {s : Session}
    (h : Inside f acc pre s) (hacc : Accepted acc f) (hne : chunk ≠ [])
    (hend : pre ++ chunk = f.encode ++ rest) :
    Ready (f.carry acc) (s.receive chunk) ∧
      (s.receive chunk).delivered =
        s.delivered ++ (if f.fin then [acc ++ f.payload] else []) ∧
      (s.receive chunk).lost = s.lost ++ rest := by
  obtain ⟨-, hread, hpayload⟩ := collect_end h.midway hend
  exact receive_end_of_valid h (isValidFrame_of_accepted hacc hread hpayload) hne hend

theorem feed_frame {f : Frame} {acc : Bytes} (hacc : Accepted acc f) :
    ∀ {chunks : List Bytes} {pre : Bytes} {s : Session}, Inside f acc pre s →
      (∀ c ∈ chunks, c ≠ []) → pre ++ chunks.flatten = f.encode →
      pre.length < f.encode.length →
      Ready (f.carry acc) (s.feed chunks) ∧
        (s.feed chunks).delivered =
          s.delivered ++ (if f.fin then [acc ++ f.payload] else []) ∧
        (s.feed chunks).lost = s.lost := by
  intro chunks
  induction chunks with
  | nil =>
    intro pre s _ _ hcat hlt
    rw [← hcat] at hlt
    simp at hlt
  | cons c cs ih =>
    intro pre s h hne hcat hlt
    rw [List.flatten_cons, ← List.append_assoc] at hcat
    rw [feed_cons]
    rcases Nat.lt_or_ge (pre ++ c).length f.encode.length with hin | hend
    · obtain ⟨hins, hdel, hlost⟩ := receive_midway h hacc (hne c (by simp)) ⟨_, hcat⟩ hin
      obtain ⟨hready, hdel', hlost'⟩ :=
        ih hins (fun d hd => hne d (List.mem_cons_of_mem _ hd)) hcat hin
      exact ⟨hready, hdel'.trans (by rw [hdel]), hlost'.trans hlost⟩
    · -- the chunk ends the frame, and no chunk is left for it
      have hcs : cs.flatten = [] := by
        have hlen := congrArg List.length hcat
        rw [List.length_append] at hlen
        exact List.length_eq_zero_iff.mp (by omega)
      have hnil : cs = [] := by
        rw [List.flatten_eq_nil_iff] at hcs
        rw [List.eq_nil_iff_forall_not_mem]
        exact fun d hd => hne d (List.mem_cons_of_mem _ hd) (hcs d hd)
      subst hnil
      rw [List.flatten_nil, List.append_nil] at hcat
      have hend' : pre ++ c = f.encode ++ [] := by simpa using hcat
      obtain ⟨hready, hdel, hlost⟩ := receive_end h hacc (hne c (by simp)) hend'
      exact ⟨hready, hdel, by simpa using hlost⟩

/-- A stream cut along its frames. -/
theorem feed_refines {fs : List Frame} :
    ∀ {acc : Bytes} {chunks : List Bytes} {s : Session}, AllAccepted acc fs → Ready acc s →
      (∀ c ∈ chunks, c ≠ []) → Refines chunks (fs.map Frame.encode) →
      (s.feed chunks).failed = false ∧
        (s.feed chunks).delivered = s.delivered ++ deliveries acc fs ∧
        (s.feed chunks).lost = s.lost := by
  induction fs with
  | nil =>
    intro acc chunks s _ h _ href
    rw [refines_nil_iff.mp href]
    exact ⟨h.failed, by simp [deliveries], rfl⟩
  | cons f fs ih =>
    intro acc chunks s hacc h hne href
    obtain ⟨ds, es, rfl, hd, he⟩ := refines_cons_iff.mp href
    have hpos : 0 < f.encode.length := List.length_pos_iff.mpr f.encode_ne_nil
    obtain ⟨hready, hdel, hlost⟩ := feed_frame hacc.1 (h.inside f)
      (fun c hc => hne c (List.mem_append_left _ hc)) hd hpos
    obtain ⟨hfail, hdel', hlost'⟩ := ih hacc.2 hready
      (fun c hc => hne c (List.mem_append_right _ hc)) he
    rw [feed_append]
    refine ⟨hfail, ?_, hlost'.trans hlost⟩
    rw [hdel', hdel, deliveries]
    cases f.fin <;> simp

theorem lost_prefix_receive (s : Session) (c : Bytes) : s.lost <+: (s.receive c).lost := by
  unfold receive
  split
  · exact List.prefix_rfl
  · dsimp only
    split
    · exact List.prefix_append _ _
    · split <;> exact List.prefix_append _ _

theorem lost_prefix_feed (s : Session) (cs : List Bytes) : s.lost <+: (s.feed cs).lost := by
  induction cs generalizing s with
  | nil => exact List.prefix_rfl
  | cons c cs ih => exact (lost_prefix_receive s c).trans (ih _)

/-- Where nothing is lost, the chunks fall into the rest of the frame and the frames after it. -/
theorem refines_of_lost {chunks : List Bytes} :
    ∀ {f : Frame} {fs : List Frame} {acc pre : Bytes} {s : Session}, AllAccepted acc (f :: fs) →
      Inside f acc pre s → (∀ c ∈ chunks, c ≠ []) → pre.length < f.encode.length →
      pre ++ chunks.flatten = f.encode ++ (fs.map Frame.encode).flatten →
      (s.feed chunks).lost = s.lost →
      ∃ ds es, chunks = ds ++ es ∧ pre ++ ds.flatten = f.encode ∧
        Refines es (fs.map Frame.encode) := by
  induction chunks with
  | nil =>
    intro f fs acc pre s _ _ _ hlt hcat _
    have hlen := congrArg List.length hcat
    simp at hlen
    omega
  | cons c cs ih =>
    intro f fs acc pre s hacc h hne hlt hcat hlost
    have hc : c ≠ [] := hne c (by simp)
    have hcs : ∀ d ∈ cs, d ≠ [] := fun d hd => hne d (List.mem_cons_of_mem _ hd)
    rw [List.flatten_cons, ← List.append_assoc] at hcat
    rw [feed_cons] at hlost
    rcases Nat.lt_or_ge (pre ++ c).length f.encode.length with hin | hend
    · have hpre : pre ++ c <+: f.encode :=
        List.prefix_of_prefix_length_le ⟨_, hcat⟩ (List.prefix_append _ _) (Nat.le_of_lt hin)
      obtain ⟨hins, -, hlost'⟩ := receive_midway h hacc.1 hc hpre hin
      obtain ⟨ds, es, rfl, hd, he⟩ := ih hacc hins hcs hin hcat (hlost.trans hlost'.symm)
      exact ⟨c :: ds, es, rfl, by simpa using hd, he⟩
    · -- what the chunk holds behind the frame is lost, so it holds nothing
      obtain ⟨rest, hrest⟩ : f.encode <+: pre ++ c :=
        List.prefix_of_prefix_length_le (List.prefix_append _ _) ⟨_, hcat⟩ hend
      obtain ⟨hready, -, hl⟩ := receive_end h hacc.1 hc hrest.symm
      have hnil : rest = [] := by
        have hp := lost_prefix_feed (s.receive c) cs
        rw [hlost, hl] at hp
        have := hp.length_le
        rw [List.length_append] at this
        exact List.length_eq_zero_iff.mp (by omega)
      subst hnil
      rw [List.append_nil] at hrest hl
      rw [← hrest, List.append_cancel_left_eq] at hcat
      refine ⟨[c], cs, rfl, by simpa using hrest.symm, ?_⟩
      cases fs with
      | nil =>
        rw [List.map_nil, List.flatten_nil, List.flatten_eq_nil_iff] at hcat
        rw [List.map_nil, refines_nil_iff, List.eq_nil_iff_forall_not_mem]
        exact fun d hd => hcs d hd (hcat d hd)
      | cons g gs =>
        rw [List.map_cons, List.flatten_cons] at hcat
        obtain ⟨ds, es, rfl, hd, he⟩ := ih hacc.2 (hready.inside g) hcs
          (List.length_pos_iff.mpr g.encode_ne_nil) hcat (hlost.trans hl.symm)
        rw [List.map_cons, refines_cons_iff]
        exact ⟨ds, es, rfl, hd, he⟩

end Session

/-! ## Messages -/

theorem message_rest {fs more : List Frame} :
    ∀ {f : Frame} {acc : Bytes},
      (∃ code, OpCodeType.ofCode f.opCode = some code ∧ (code = .Continue → acc ≠ [])) →
      acc ++ f.payload ≠ [] → (∀ g ∈ fs, g.opCode = 0) →
      (f :: fs).map (·.fin) = List.replicate fs.length false ++ [true] →
      acc.length + ((f :: fs).map fun g => g.payload.length).sum ≤ kMaxLength →
      AllAccepted [] more →
      AllAccepted acc (f :: fs ++ more) ∧
        deliveries acc (f :: fs ++ more) =
          (acc ++ ((f :: fs).map (·.payload)).flatten) :: deliveries [] more := by
  induction fs with
  | nil =>
    intro f acc hop hne _ hfin hsize hmore
    have hf : f.fin = true := by simpa using hfin
    simp only [List.map_cons, List.map_nil, List.sum_cons, List.sum_nil, Nat.add_zero] at hsize
    refine ⟨⟨⟨hop, hsize⟩, ?_⟩, ?_⟩
    · simpa [Frame.carry, hf] using hmore
    · simp [deliveries, Frame.carry, hf]
  | cons g gs ih =>
    intro f acc hop hne hcont hfin hsize hmore
    simp only [List.map_cons, List.length_cons, List.replicate_succ, List.cons_append,
      List.cons.injEq] at hfin
    obtain ⟨hf, hfin⟩ := hfin
    simp only [List.map_cons, List.sum_cons] at hsize
    have hcarry : f.carry acc = acc ++ f.payload := by simp [Frame.carry, hf]
    have hg : g.opCode = 0 := hcont g (by simp)
    obtain ⟨hall, hdel⟩ := @ih g (acc ++ f.payload)
      ⟨.Continue, by rw [hg]; rfl, fun _ => hne⟩ (List.append_ne_nil_of_left_ne_nil hne _)
      (fun x hx => hcont x (List.mem_cons_of_mem _ hx)) (by simpa using hfin)
      (by simp only [List.map_cons, List.sum_cons, List.length_append]; omega) hmore
    refine ⟨⟨⟨hop, by omega⟩, hcarry ▸ hall⟩, ?_⟩
    rw [List.cons_append, deliveries, hf, hcarry, hdel]
    simp

theorem messages_accepted (ms : List Message) :
    AllAccepted [] (ms.flatMap Message.frames) ∧
      deliveries [] (ms.flatMap Message.frames) = ms.map Message.payload := by
  induction ms with
  | nil => exact ⟨trivial, rfl⟩
  | cons m ms ih =>
    have hop : ∃ code, OpCodeType.ofCode m.first.opCode = some code ∧
        (code = .Continue → ([] : Bytes) ≠ []) := by
      rcases m.opens with h | h
      · exact ⟨.Text, by rw [h]; rfl, by simp⟩
      · exact ⟨.Binary, by rw [h]; rfl, by simp⟩
    obtain ⟨hall, hdel⟩ := @message_rest _ _ m.first [] hop (by simpa using m.nonempty) m.continues
      m.final (by simpa using m.size) ih.1
    refine ⟨hall, ?_⟩
    rw [List.flatMap_cons, List.map_cons, ← ih.2]
    exact hdel

/-- **Messages over chunks.** For every sequence of messages and every cut of their bytes into
chunks, the messages are delivered as they were sent, each once and in order, without losing a
byte, if and only if no chunk holds bytes of two frames. -/
theorem delivers_iff_refines (ms : List Message) (chunks : List Bytes)
    (hne : ∀ c ∈ chunks, c ≠ [])
    (hcat : chunks.flatten = ((ms.flatMap Message.frames).map Frame.encode).flatten) :
    ((Session.feed {} chunks).failed = false ∧
      (Session.feed {} chunks).delivered = ms.map Message.payload ∧
      (Session.feed {} chunks).lost = []) ↔
    Refines chunks ((ms.flatMap Message.frames).map Frame.encode) := by
  obtain ⟨hall, hdel⟩ := messages_accepted ms
  have hready := Session.ready_init
  constructor
  · rintro ⟨-, -, hlost⟩
    cases hfs : ms.flatMap Message.frames with
    | nil =>
      rw [hfs, List.map_nil, List.flatten_nil, List.flatten_eq_nil_iff] at hcat
      rw [List.map_nil, refines_nil_iff, List.eq_nil_iff_forall_not_mem]
      exact fun c hc => hne c hc (hcat c hc)
    | cons f fs =>
      rw [hfs] at hall hcat
      obtain ⟨ds, es, rfl, hd, he⟩ := Session.refines_of_lost hall (hready.inside f) hne
        (List.length_pos_iff.mpr f.encode_ne_nil) hcat hlost
      rw [List.map_cons, refines_cons_iff]
      exact ⟨ds, es, rfl, hd, he⟩
  · intro href
    obtain ⟨hfail, hdeliv, hlost⟩ := Session.feed_refines hall hready hne href
    exact ⟨hfail, by rw [hdeliv, hdel]; rfl, hlost⟩

/-- A text message of one byte, in one frame. -/
def oneByteMessage (b : UInt8) : Message where
  first :=
    { fin := true
      rsv := 0
      opCode := 1
      form := .inline
      key := [1, 2, 3, 4]
      payload := [b]
      key_length := rfl
      fits := by simp [LenForm.limit] }
  rest := []
  opens := .inl rfl
  nonempty := by simp
  continues := by simp
  final := rfl
  size := by simp [kMaxLength]

/-- The first frame comes in two chunks and the second one in a third. -/
theorem delivers_three_chunks :
    (Session.feed {} [[0x81, 0x81, 1], [2, 3, 4, 0x60], [0x81, 0x81, 1, 2, 3, 4, 0x63]]).delivered =
      [[0x61], [0x62]] := by
  have href : Refines [[0x81, 0x81, 1], [2, 3, 4, 0x60], [0x81, 0x81, 1, 2, 3, 4, 0x63]]
      (([oneByteMessage 0x61, oneByteMessage 0x62].flatMap Message.frames).map Frame.encode) :=
    ⟨[[[0x81, 0x81, 1], [2, 3, 4, 0x60]], [[0x81, 0x81, 1, 2, 3, 4, 0x63]]], by decide, rfl⟩
  exact ((delivers_iff_refines [oneByteMessage 0x61, oneByteMessage 0x62] _ (by decide)
    href.flatten_eq).mpr href).2.1

/-- Both frames come in one chunk, and the second one is lost. -/
theorem loses_second_frame :
    (∀ c ∈ [([0x81, 0x81, 1, 2, 3, 4, 0x60, 0x81, 0x81, 1, 2, 3, 4, 0x63] : Bytes)], c ≠ []) ∧
    [[0x81, 0x81, 1, 2, 3, 4, 0x60, 0x81, 0x81, 1, 2, 3, 4, 0x63]].flatten =
      (([oneByteMessage 0x61, oneByteMessage 0x62].flatMap Message.frames).map
        Frame.encode).flatten ∧
    (Session.feed {} [[0x81, 0x81, 1, 2, 3, 4, 0x60, 0x81, 0x81, 1, 2, 3, 4, 0x63]]).delivered ≠
      [oneByteMessage 0x61, oneByteMessage 0x62].map Message.payload := by
  refine ⟨by decide, by decide, by decide⟩

end Http
end CoSocket
