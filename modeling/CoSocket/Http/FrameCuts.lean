import CoSocket.Http.WebSocketEncoder

/-!
# Http.FrameCuts

One frame at the parser, cut into chunks anywhere: in the header, which is read again from its start
with each chunk, or in the payload.

`parse_cut_frame` says of a frame that is accepted when the message grows, and of one that is not
with which chunk it is refused. A refused frame may be unmasked or announce a payload of any size,
so that its header is taken by itself here (`WireHeader`).
-/

namespace CoSocket
namespace Http

open Base

/-! ## Headers -/

/-- The header of a frame as it stands on the wire, whatever it announces. The key is empty in an
unmasked frame. -/
structure WireHeader where
  fin : Bool
  rsv : Fin 8
  opCode : Fin 16
  form : LenForm
  len : Nat
  key : Bytes
  fits : len < form.limit
  key_length : key = [] ∨ key.length = 4

namespace WireHeader

/-- The second byte: the mask bit and the seven bits of a length. -/
def secondByte (mask : Bool) (code : Nat) : UInt8 :=
  (if mask then 0x80 else 0 : UInt8) ||| UInt8.ofNat code

def bytes (h : WireHeader) : Bytes :=
  Frame.firstByte h.fin h.rsv h.opCode ::
    secondByte (!h.key.isEmpty) (h.form.code h.len) :: (h.form.extended h.len ++ h.key)

theorem secondByte_bits (mask : Bool) {code : Nat} (h : code < 128) :
    (0x80 &&& secondByte mask code != 0) = mask ∧ (0x7F &&& secondByte mask code).toNat = code := by
  have key : ∀ (mask : Bool) (c : Fin 128),
      (0x80 &&& secondByte mask c != 0) = mask ∧ (0x7F &&& secondByte mask c).toNat = c := by
    decide
  exact key mask ⟨code, h⟩

/-- What `CheckOpCode` says to the frame, behind the payload `acc`. -/
def admitted (h : WireHeader) (acc : Bytes) : Bool :=
  match OpCodeType.ofCode h.opCode with
  | some .Continue => !acc.isEmpty
  | some _ => true
  | none => false

/-- The frame is not to be accepted behind the payload `acc`: it is unmasked, its opcode is refused,
or it announces more than a message may have. -/
def Refused (h : WireHeader) (acc : Bytes) : Prop :=
  h.key = [] ∨ h.admitted acc = false ∨ h.len < 2 ^ 63 ∧ kMaxLength < acc.length + h.len

end WireHeader

namespace WebSocketParser

/-- What `ParseHeader` reads of a header that is there as a whole. -/
structure WireRead (h : WireHeader) (p : WebSocketParser) : Prop where
  opCode : p.opCode = h.opCode
  payloadLen : p.payloadLen = h.len
  maskKey : p.maskKey = h.key

theorem masked_of_length {key : Bytes} (h : key.length = 4) : (!key.isEmpty) = true := by
  cases key with
  | nil => cases h
  | cons b bs => rfl

theorem parseMaskKey_wire {q : WebSocketParser} {key rest : Bytes}
    (hkey : key = [] ∨ key.length = 4) (hoff : q.offset ≤ q.inputCache.length)
    (hdrop : q.inputCache.drop q.offset = key ++ rest) :
    (q.parseMaskKey (!key.isEmpty)).1 = true ∧
      (q.parseMaskKey (!key.isEmpty)).2.opCode = q.opCode ∧
      (q.parseMaskKey (!key.isEmpty)).2.payloadLen = q.payloadLen ∧
      (q.parseMaskKey (!key.isEmpty)).2.maskKey = key := by
  rcases hkey with rfl | hkey
  · exact ⟨rfl, rfl, rfl, rfl⟩
  · rw [masked_of_length hkey, parseMaskKey_full hkey hoff hdrop]
    exact ⟨rfl, rfl, rfl, rfl⟩

theorem drop_two {p : WebSocketParser} {b₀ b₁ : UInt8} {tail : Bytes}
    (hc : p.inputCache = b₀ :: b₁ :: tail) :
    2 ≤ p.inputCache.length ∧ p.inputCache.drop 2 = tail := by
  rw [hc]
  exact ⟨by simp, rfl⟩

theorem parseHeader_wire {p : WebSocketParser} {h : WireHeader} {rest : Bytes}
    (hc : p.inputCache = h.bytes ++ rest) :
    p.parseHeader.1 = true ∧ WireRead h p.parseHeader.2 := by
  obtain ⟨hop, -⟩ := Frame.firstByte_bits h.fin h.rsv h.opCode
  obtain ⟨hmask, hlen⟩ := WireHeader.secondByte_bits (!h.key.isEmpty) (LenForm.code_lt h.fits)
  have hcache : p.inputCache = Frame.firstByte h.fin h.rsv h.opCode ::
      WireHeader.secondByte (!h.key.isEmpty) (h.form.code h.len) ::
        (h.form.extended h.len ++ (h.key ++ rest)) := by
    rw [hc, WireHeader.bytes]
    simp
  obtain ⟨hin, hdrop⟩ := drop_two hcache
  rw [parseHeader_cons_cons hcache, hmask,
    parsePayloadLen_full (p := p.headerStart _ _) h.fits hlen hin hdrop]
  obtain ⟨hok, hop', hlen', hkey⟩ := @parseMaskKey_wire
    { p.headerStart (Frame.firstByte h.fin h.rsv h.opCode)
        (WireHeader.secondByte (!h.key.isEmpty) (h.form.code h.len)) with
      payloadLen := h.len
      offset := 2 + (h.form.extended h.len).length }
    h.key rest h.key_length
    (by
      show 2 + (h.form.extended h.len).length ≤ p.inputCache.length
      rw [hcache]
      simp
      omega)
    (by
      show p.inputCache.drop (2 + (h.form.extended h.len).length) = _
      rw [← List.drop_drop, hdrop, List.drop_left])
  exact ⟨hok, hop'.trans hop, hlen', hkey⟩

theorem parseHeader_wire_short {p : WebSocketParser} {h : WireHeader}
    (hpre : p.inputCache <+: h.bytes) (hlt : p.inputCache.length < h.bytes.length) :
    p.parseHeader.1 = false := by
  match hc : p.inputCache with
  | [] => rw [parseHeader_nil hc]
  | [b₀] => rw [parseHeader_singleton hc]
  | b₀ :: b₁ :: tail =>
    rw [hc, WireHeader.bytes] at hpre
    obtain ⟨rfl, hpre'⟩ := List.cons_prefix_cons.mp hpre
    obtain ⟨rfl, htail⟩ := List.cons_prefix_cons.mp hpre'
    obtain ⟨hmask, hlen⟩ := WireHeader.secondByte_bits (!h.key.isEmpty) (LenForm.code_lt h.fits)
    obtain ⟨hin, hdrop⟩ := drop_two hc
    rw [hc] at hlt
    simp only [WireHeader.bytes, List.length_cons, List.length_append] at hlt
    rw [parseHeader_cons_cons hc, hmask]
    rcases Nat.lt_or_ge tail.length (h.form.extended h.len).length with hshort | hge
    · rw [parsePayloadLen_short (p := p.headerStart _ _) h.fits hlen hin]
      show (p.inputCache.drop 2).length < _
      rw [hdrop]
      exact hshort
    · -- the length is there, so that some of the key is missing
      obtain ⟨key, rfl⟩ : ∃ key, tail = h.form.extended h.len ++ key := by
        obtain ⟨key, hkey⟩ := List.prefix_of_prefix_length_le (List.prefix_append _ _) htail hge
        exact ⟨key, hkey.symm⟩
      rw [List.length_append] at hlt
      have hkey : h.key.length = 4 := by
        rcases h.key_length with hnil | hfour
        · rw [hnil] at hlt
          simp at hlt
        · exact hfour
      rw [parsePayloadLen_full (p := p.headerStart _ _) h.fits hlen hin hdrop,
        masked_of_length hkey]
      refine parseMaskKey_short ?_ ?_
      · show 2 + (h.form.extended h.len).length ≤ p.inputCache.length
        rw [hc]
        simp
        omega
      · show (p.inputCache.drop (2 + (h.form.extended h.len).length)).length < 4
        rw [← List.drop_drop, hdrop, List.drop_left]
        omega

theorem isValidFrame_of_refused {h : WireHeader} {acc : Bytes} {p : WebSocketParser}
    (href : h.Refused acc) (hmax : acc.length ≤ kMaxLength) (hr : WireRead h p)
    (hp : p.payload = acc) : p.isValidFrame = false := by
  rw [isValidFrame, hr.maskKey]
  split
  · rfl
  · rename_i hkey
    rcases href with hnil | hop | ⟨hlen, hbig⟩
    · rw [hnil] at hkey
      exact absurd rfl hkey
    · have hcheck : p.checkOpCode = false := by
        rw [checkOpCode, hr.opCode, hp]
        exact hop
      rw [hcheck]
      rfl
    · split
      · rfl
      · -- the sum does not wrap
        have hsum : (p.payload.length + p.payloadLen) % 2 ^ 64 = acc.length + h.len := by
          rw [hp, hr.payloadLen]
          refine Nat.mod_eq_of_lt ?_
          simp only [kMaxLength] at hmax
          omega
        rw [hsum]
        simpa using hbig

/-! ## The chunks of a frame -/

theorem parseAll_snoc (p : WebSocketParser) (pre : List Bytes) (c : Bytes) :
    (p.parseAll (pre ++ [c])).2 = ((p.parseAll pre).2.parse c).2 := by
  induction pre generalizing p with
  | nil => rfl
  | cons d pre ih => exact ih (p.parse d).2

theorem length_flatten_lt {pre chunks : List Bytes} (hne : ∀ c ∈ chunks, c ≠ [])
    (hpre : pre <+: chunks) (hlt : pre ≠ chunks) :
    pre.flatten.length < chunks.flatten.length := by
  obtain ⟨rest, rfl⟩ := hpre
  cases rest with
  | nil => exact absurd (List.append_nil _).symm hlt
  | cons c rest =>
    have hc := List.length_pos_iff.mpr (hne c (by simp))
    simp only [List.flatten_append, List.flatten_cons, List.length_append]
    omega

/-- The fields that belong to one frame have their initial values. -/
structure FrameInitial (p : WebSocketParser) : Prop where
  headerComplete : p.headerComplete = false
  fin : p.fin = false
  payloadLen : p.payloadLen = 0
  offset : p.offset = 0
  inputCache : p.inputCache = []

theorem length_collect_pos (p : WebSocketParser) {data : Bytes} (hdata : data ≠ []) :
    (p.collect data).inputCache ≠ [] := by
  intro hnil
  have hlen := length_collect p data
  rw [hnil] at hlen
  have hpos := List.length_pos_iff.mpr hdata
  simp only [List.length_nil] at hlen
  omega

theorem frameInitial_of_parse {p : WebSocketParser} {data : Bytes} (hdata : data ≠ [])
    (h : (p.parse data).2.inputCache = []) : FrameInitial (p.parse data).2 := by
  have hne : data.isEmpty = false := by simpa using hdata
  have hcache := length_collect_pos p hdata
  unfold parse at h ⊢
  simp only [hne, Bool.false_eq_true, if_false] at h ⊢
  split at h
  · exact absurd h hcache
  · rename_i hh
    rw [if_neg hh]
    split at h
    · exact absurd h hcache
    · rename_i hv
      rw [if_neg hv]
      unfold processPayload at h ⊢
      split at h
      · exact absurd h hcache
      · rename_i hb
        rw [if_neg hb]
        exact ⟨rfl, rfl, rfl, rfl, rfl⟩

theorem ne_of_snoc_begins {pre chunks : List Bytes} {c : Bytes} (h : pre ++ [c] <+: chunks) :
    pre ≠ chunks := by
  rintro rfl
  have hle := h.length_le
  rw [List.length_append, List.length_singleton] at hle
  omega

/-- A chunk of an accepted frame that is not its last one. -/
theorem parse_inside {f : Frame} {acc : Bytes} {q : WebSocketParser} {chunks pre : List Bytes}
    {c : Bytes} (h : Midway f acc pre.flatten q) (hacc : Accepted acc f)
    (hne : ∀ c ∈ chunks, c ≠ []) (hchunks : chunks.flatten = f.encode)
    (hpre : pre ++ [c] <+: chunks) (hlt : pre ++ [c] ≠ chunks) :
    (q.parse c).1 = true ∧ Midway f acc (pre ++ [c]).flatten (q.parse c).2 := by
  have hflat : (pre ++ [c]).flatten = pre.flatten ++ c := by simp
  have hstream : (pre ++ [c]).flatten <+: f.encode := hchunks ▸ hpre.flatten
  have hshort : (pre ++ [c]).flatten.length < f.encode.length :=
    hchunks ▸ length_flatten_lt hne hpre hlt
  rw [hflat] at hstream hshort ⊢
  obtain ⟨hok, hmid, -⟩ := parse_midway h hacc (hne c (hpre.subset (by simp))) hstream hshort
  exact ⟨hok, hmid⟩

theorem midway_parseAll {f : Frame} {acc : Bytes} {p : WebSocketParser} {chunks : List Bytes}
    (h : Midway f acc [] p) (hacc : Accepted acc f) (hne : ∀ c ∈ chunks, c ≠ [])
    (hchunks : chunks.flatten = f.encode) :
    ∀ {pre : List Bytes}, pre <+: chunks → pre ≠ chunks →
      Midway f acc pre.flatten (p.parseAll pre).2 := by
  intro pre
  induction pre using List.reverseRecOn with
  | nil =>
    intro _ _
    exact h
  | append_singleton pre c ih =>
    intro hpre hlt
    have hmid := ih ((List.prefix_append pre [c]).trans hpre) (ne_of_snoc_begins hpre)
    rw [parseAll_snoc]
    exact (parse_inside hmid hacc hne hchunks hpre hlt).2

/-- The parser has got the bytes `pre`, which are not yet a header. -/
structure Collecting (acc pre : Bytes) (p : WebSocketParser) : Prop where
  cache : p.inputCache = pre
  payload : p.payload = acc
  headerComplete : p.headerComplete = false

theorem parse_collecting {h : WireHeader} {acc pre data : Bytes} {p : WebSocketParser}
    (hp : Collecting acc pre p) (hdata : data ≠ []) (hpre : pre ++ data <+: h.bytes)
    (hlt : (pre ++ data).length < h.bytes.length) :
    (p.parse data).1 = true ∧ Collecting acc (pre ++ data) (p.parse data).2 := by
  have hne : data.isEmpty = false := by simpa using hdata
  have hcol := collect_of_incomplete hp.headerComplete data
  rw [hp.cache] at hcol
  have hshort : (parseHeader { p with inputCache := pre ++ data }).1 = false :=
    parseHeader_wire_short hpre hlt
  obtain ⟨hc, hpay, -⟩ := parseHeader_sameCache { p with inputCache := pre ++ data }
  have hparse : p.parse data = (true, p.collect data) := by
    simp only [parse, hne, hcol, hshort, Bool.false_eq_true, if_false, Bool.not_false, if_true]
  rw [hparse, hcol]
  exact ⟨rfl, hc, hpay.trans hp.payload, hshort⟩

theorem parse_refused {h : WireHeader} {acc pre data rest : Bytes} {p : WebSocketParser}
    (hp : Collecting acc pre p) (hdata : data ≠ []) (href : h.Refused acc)
    (hmax : acc.length ≤ kMaxLength) (hfull : pre ++ data = h.bytes ++ rest) :
    (p.parse data).1 = false := by
  have hne : data.isEmpty = false := by simpa using hdata
  have hcol := collect_of_incomplete hp.headerComplete data
  rw [hp.cache] at hcol
  obtain ⟨hok, hread⟩ := parseHeader_wire (p := { p with inputCache := pre ++ data }) hfull
  obtain ⟨-, hpay, -⟩ := parseHeader_sameCache { p with inputCache := pre ++ data }
  have hvalid : (p.collect data).isValidFrame = false := by
    rw [hcol]
    exact isValidFrame_of_refused href hmax ⟨hread.opCode, hread.payloadLen, hread.maskKey⟩
      (hpay.trans hp.payload)
  have hheader : (p.collect data).headerComplete = true := by
    rw [hcol]
    exact hok
  simp only [parse, hne, hheader, hvalid, Bool.false_eq_true, if_false, Bool.not_true,
    Bool.not_false, if_true]

theorem collecting_parseAll {h : WireHeader} {acc body : Bytes} {p : WebSocketParser}
    {chunks : List Bytes} (hp : Collecting acc [] p) (hne : ∀ c ∈ chunks, c ≠ [])
    (hchunks : chunks.flatten = h.bytes ++ body) :
    ∀ {pre : List Bytes}, pre <+: chunks → pre.flatten.length < h.bytes.length →
      Collecting acc pre.flatten (p.parseAll pre).2 := by
  intro pre
  induction pre using List.reverseRecOn with
  | nil =>
    intro _ _
    exact hp
  | append_singleton pre c ih =>
    intro hpre hlt
    have hflat : pre.flatten ++ c = (pre ++ [c]).flatten := by simp
    rw [← hflat] at hlt ⊢
    have hshort : pre.flatten ++ c <+: h.bytes := by
      refine List.prefix_of_prefix_length_le ?_ (List.prefix_append h.bytes body) (Nat.le_of_lt hlt)
      rw [hflat, ← hchunks]
      exact hpre.flatten
    have hpre' := ih ((List.prefix_append pre [c]).trans hpre) (by
      rw [List.length_append] at hlt
      omega)
    rw [parseAll_snoc]
    exact (parse_collecting hpre' (hne c (hpre.subset (by simp))) hshort hlt).2

theorem parse_last_chunk {f : Frame} {acc : Bytes} {p : WebSocketParser} {pre : List Bytes}
    {c : Bytes} (h : Midway f acc [] p) (hacc : Accepted acc f)
    (hne : ∀ d ∈ pre ++ [c], d ≠ []) (hchunks : (pre ++ [c]).flatten = f.encode) :
    ((p.parseAll pre).2.parse c).1 = true ∧
      (p.parseAll (pre ++ [c])).2.payload = acc ++ f.payload ∧
      (p.parseAll (pre ++ [c])).2.complete = f.fin ∧ FrameInitial (p.parseAll (pre ++ [c])).2 := by
  have hmid : Midway f acc pre.flatten (p.parseAll pre).2 :=
    midway_parseAll h hacc hne hchunks (List.prefix_append _ _) (by simp)
  have hc : c ≠ [] := hne c (by simp)
  have hend : pre.flatten ++ c = f.encode ++ [] := by
    rw [List.append_nil, ← hchunks]
    simp
  obtain ⟨-, hread, hpay⟩ := collect_end hmid hend
  obtain ⟨hok, hbet, hfin, -⟩ := parse_end_of_valid hmid
    (isValidFrame_of_accepted hacc hread hpay) hc hend
  rw [parseAll_snoc]
  exact ⟨hok, hbet.payload, hfin, frameInitial_of_parse hc hbet.cache⟩

theorem parse_cut_accepted {f : Frame} {acc : Bytes} {p : WebSocketParser} {chunks : List Bytes}
    (h : Midway f acc [] p) (hacc : Accepted acc f) (hne : ∀ c ∈ chunks, c ≠ [])
    (hchunks : chunks.flatten = f.encode) :
    (∀ pre c, pre ++ [c] <+: chunks → ((p.parseAll pre).2.parse c).1 = true) ∧
      (∀ pre, pre <+: chunks → pre ≠ chunks →
        (p.parseAll pre).2.payload = acc ∧ (p.parseAll pre).2.complete = false) ∧
      (p.parseAll chunks).2.payload = acc ++ f.payload ∧
      (p.parseAll chunks).2.complete = f.fin ∧ FrameInitial (p.parseAll chunks).2 := by
  have hmid : ∀ {pre : List Bytes}, pre <+: chunks → pre ≠ chunks →
      Midway f acc pre.flatten (p.parseAll pre).2 := midway_parseAll h hacc hne hchunks
  obtain rfl | ⟨init, last, rfl⟩ := chunks.eq_nil_or_concat'
  · exact absurd hchunks.symm (Frame.encode_ne_nil f)
  obtain ⟨hok, hend⟩ := parse_last_chunk h hacc hne hchunks
  refine ⟨fun pre c hpre => ?_, fun pre hpre hlt => ?_, hend⟩
  · by_cases hlast : pre ++ [c] = init ++ [last]
    · obtain ⟨rfl, hc⟩ := List.append_inj' hlast rfl
      cases hc
      exact hok
    · have hpre' := (List.prefix_append pre [c]).trans hpre
      exact (parse_inside (hmid hpre' (ne_of_snoc_begins hpre)) hacc hne hchunks hpre hlast).1
  · exact ⟨(hmid hpre hlt).payload, (hmid hpre hlt).complete⟩

theorem parse_cut_refused {h : WireHeader} {acc body : Bytes} {p : WebSocketParser}
    {chunks : List Bytes} (hp : Collecting acc [] p) (hmax : acc.length ≤ kMaxLength)
    (href : h.Refused acc) (hne : ∀ c ∈ chunks, c ≠ []) (hchunks : chunks.flatten = h.bytes ++ body)
    {pre : List Bytes} {c : Bytes} (hpre : pre ++ [c] <+: chunks) :
    ((pre ++ [c]).flatten.length < h.bytes.length → ((p.parseAll pre).2.parse c).1 = true) ∧
      (pre.flatten.length < h.bytes.length → h.bytes.length ≤ (pre ++ [c]).flatten.length →
        ((p.parseAll pre).2.parse c).1 = false) := by
  have hcoll : pre.flatten.length < h.bytes.length →
      Collecting acc pre.flatten (p.parseAll pre).2 := fun hlt =>
    collecting_parseAll hp hne hchunks ((List.prefix_append pre [c]).trans hpre) hlt
  have hc : c ≠ [] := hne c (hpre.subset (by simp))
  have hflat : (pre ++ [c]).flatten = pre.flatten ++ c := by simp
  have hstream : pre.flatten ++ c <+: h.bytes ++ body := by
    rw [← hflat, ← hchunks]
    exact hpre.flatten
  rw [hflat]
  constructor
  · intro hlt
    have hshort := List.prefix_of_prefix_length_le hstream (List.prefix_append h.bytes body)
      (Nat.le_of_lt hlt)
    rw [List.length_append] at hlt
    exact (parse_collecting (hcoll (by omega)) hc hshort (by
      rw [List.length_append]
      exact hlt)).1
  · intro hlt hge
    obtain ⟨rest, hrest⟩ := List.prefix_of_prefix_length_le (List.prefix_append h.bytes body)
      hstream hge
    exact parse_refused (hcoll hlt) hc href hmax hrest.symm

/-- **A frame in chunks.** From any state between two frames of a message, and for every cut of a
frame into chunks that are not empty: if the frame is acceptable, every `Parse` returns `true`,
nothing shows of the frame before its last byte, and with it the payload is appended, the message is
complete if the frame says so, and the fields of the frame are reset; if not, `Parse` returns `true`
until the header is complete, and `false` with the chunk that completes it. -/
theorem parse_cut_frame {acc : Bytes} {p : WebSocketParser} (hp : Between acc p)
    (hcomplete : p.complete = false) (hmax : acc.length ≤ kMaxLength) :
    (∀ (f : Frame) (chunks : List Bytes), Accepted acc f → (∀ c ∈ chunks, c ≠ []) →
      chunks.flatten = f.encode →
      (∀ pre c, pre ++ [c] <+: chunks → ((p.parseAll pre).2.parse c).1 = true) ∧
      (∀ pre, pre <+: chunks → pre ≠ chunks →
        (p.parseAll pre).2.payload = acc ∧ (p.parseAll pre).2.complete = false) ∧
      (p.parseAll chunks).2.payload = acc ++ f.payload ∧
      (p.parseAll chunks).2.complete = f.fin ∧ FrameInitial (p.parseAll chunks).2) ∧
    ∀ (h : WireHeader) (body : Bytes) (chunks : List Bytes), h.Refused acc →
      (∀ c ∈ chunks, c ≠ []) → chunks.flatten = h.bytes ++ body →
      ∀ pre c, pre ++ [c] <+: chunks →
        ((pre ++ [c]).flatten.length < h.bytes.length → ((p.parseAll pre).2.parse c).1 = true) ∧
        (pre.flatten.length < h.bytes.length → h.bytes.length ≤ (pre ++ [c]).flatten.length →
          ((p.parseAll pre).2.parse c).1 = false) := by
  constructor
  · intro f chunks hacc hne hchunks
    exact parse_cut_accepted (hp.midway hcomplete f) hacc hne hchunks
  · intro h body chunks href hne hchunks pre c hpre
    exact parse_cut_refused ⟨hp.cache, hp.payload, hp.headerComplete⟩ hmax href hne hchunks hpre

/-- The header of an unmasked text frame of two bytes. -/
def unmaskedHeader : WireHeader where
  fin := true
  rsv := 0
  opCode := 1
  form := .inline
  len := 2
  key := []
  fits := by decide
  key_length := .inl rfl

/-- A text frame of two bytes in three chunks, the first of which ends inside the header; and an
unmasked one, refused with the chunk that has its second byte. -/
theorem parse_cut_two_bytes :
    ((({} : WebSocketParser).parseAll [[0x81], [0x82, 1, 2], [3, 4, 0x60, 0x60]]).2.payload =
        [0x61, 0x62] ∧
      (({} : WebSocketParser).parseAll [[0x81], [0x82, 1, 2], [3, 4, 0x60, 0x60]]).2.complete =
        true) ∧
    ((({} : WebSocketParser).parseAll [[0x81]]).2.parse [0x02, 0x61, 0x62]).1 = false := by
  have hp : Between [] ({} : WebSocketParser) := ⟨rfl, rfl, rfl⟩
  obtain ⟨haccepted, hrefused⟩ := parse_cut_frame hp rfl (by decide)
  obtain ⟨-, -, hpayload, hcomplete, -⟩ :=
    haccepted (shortFrame true 1 [0x61, 0x62] (by decide))
      [[0x81], [0x82, 1, 2], [3, 4, 0x60, 0x60]] (Frame.accepted_of_admitted rfl (by decide))
      (by decide) (by decide)
  refine ⟨⟨hpayload, hcomplete⟩, ?_⟩
  exact (hrefused unmaskedHeader [0x61, 0x62] [[0x81], [0x02, 0x61, 0x62]] (.inl rfl) (by decide)
    (by decide) [[0x81]] [0x02, 0x61, 0x62] List.prefix_rfl).2 (by decide) (by decide)

end WebSocketParser

end Http
end CoSocket
