import CoSocket.Http.WebSocketBounds

/-!
# Http.Fragments

Fragmented messages, with one whole frame in each call of `Parse`. The parser has no record of a
message in progress. It takes the bytes collected so far for one: a continuation is accepted if
there are any, and every frame, of data or of control, adds its payload to them and ends them when
it has the final bit.

`fragmentation_iff` says when this agrees with the fragmentation that the frames themselves make,
and `intact_iff` when a message with control frames between its fragments arrives as it was sent.
-/

namespace CoSocket
namespace Http

open Base WebSocketParser

namespace Frame

/-- What `CheckOpCode` says to the frame, behind the payload `acc`. -/
def admitted (f : Frame) (acc : Bytes) : Bool :=
  match OpCodeType.ofCode f.opCode with
  | some .Continue => !acc.isEmpty
  | some _ => true
  | none => false

theorem accepted_of_admitted {f : Frame} {acc : Bytes} (h : f.admitted acc = true)
    (hsize : acc.length + f.payload.length ≤ kMaxLength) : Accepted acc f := by
  refine ⟨?_, hsize⟩
  unfold admitted at h
  cases hcode : OpCodeType.ofCode f.opCode with
  | none => rw [hcode] at h; cases h
  | some code =>
    refine ⟨code, rfl, ?_⟩
    rintro rfl
    rw [hcode] at h
    simpa using h

theorem admitted_continue {f : Frame} (h : f.opCode = 0) (acc : Bytes) :
    f.admitted acc = !acc.isEmpty := by
  rw [admitted, h]
  rfl

theorem admitted_data {f : Frame} (h : f.opCode = 1 ∨ f.opCode = 2) (acc : Bytes) :
    f.admitted acc = true := by
  rcases h with h | h <;> rw [admitted, h] <;> rfl

end Frame

/-! ## One frame -/

namespace Session

theorem isValidFrame_of_not_admitted {f : Frame} {acc : Bytes} {p : WebSocketParser}
    (h : f.admitted acc = false) (hr : HeaderRead f p) (hp : p.payload = acc) :
    p.isValidFrame = false := by
  have hop : p.checkOpCode = false := by
    rw [checkOpCode, hr.opCode, hp]
    exact h
  unfold isValidFrame
  rw [hop]
  split <;> rfl

theorem receive_of_not_valid {f : Frame} {acc : Bytes} {s : Session} (h : Ready acc s)
    (hv : (s.parser.collect f.encode).isValidFrame = false) :
    (s.receive f.encode).failed = true := by
  obtain ⟨hh, -, -⟩ := collect_end (h.inside f).midway f.whole_chunk
  have hne : f.encode.isEmpty = false := by simpa using f.encode_ne_nil
  have hparse : (s.parser.parse f.encode).1 = false := by
    simp [WebSocketParser.parse, hne, hh, hv]
  by_contra hf
  rw [Bool.not_eq_true, failed_receive, hparse] at hf
  cases hf.2

theorem receive_refused {f : Frame} {acc : Bytes} {s : Session} (h : Ready acc s)
    (hr : f.admitted acc = false) : (s.receive f.encode).failed = true := by
  obtain ⟨-, hread, hpayload⟩ := collect_end (h.inside f).midway f.whole_chunk
  exact receive_of_not_valid h (isValidFrame_of_not_admitted hr hread hpayload)

theorem receive_frame {f : Frame} {acc : Bytes} {s : Session} (h : Ready acc s) :
    (s.receive f.encode).failed = true ∨
      (Ready (f.carry acc) (s.receive f.encode) ∧
        (s.receive f.encode).delivered =
          s.delivered ++ (if f.fin then [acc ++ f.payload] else [])) := by
  cases hv : (s.parser.collect f.encode).isValidFrame with
  | false => exact .inl (receive_of_not_valid h hv)
  | true =>
    obtain ⟨hready, hdel, -⟩ :=
      receive_end_of_valid (h.inside f) hv f.encode_ne_nil f.whole_chunk
    exact .inr ⟨hready, hdel⟩

theorem receive_admitted {f : Frame} {acc : Bytes} {s : Session} (h : Ready acc s)
    (ha : f.admitted acc = true) (hsize : acc.length + f.payload.length ≤ kMaxLength) :
    Ready (f.carry acc) (s.receive f.encode) ∧
      (s.receive f.encode).delivered =
        s.delivered ++ (if f.fin then [acc ++ f.payload] else []) := by
  obtain ⟨hready, hdel, -⟩ := receive_end (h.inside f) (Frame.accepted_of_admitted ha hsize)
    f.encode_ne_nil f.whole_chunk
  exact ⟨hready, hdel⟩

/-- The frames, one in each call. -/
def frames (s : Session) (fs : List Frame) : Session := s.feed (fs.map Frame.encode)

@[simp] theorem frames_nil (s : Session) : s.frames [] = s := rfl

@[simp] theorem frames_cons (s : Session) (f : Frame) (fs : List Frame) :
    s.frames (f :: fs) = (s.receive f.encode).frames fs := rfl

theorem frames_append (s : Session) (fs gs : List Frame) :
    s.frames (fs ++ gs) = (s.frames fs).frames gs := by
  rw [frames, List.map_append, feed_append]
  rfl

theorem failed_frames {s : Session} (h : s.failed = true) (fs : List Frame) :
    (s.frames fs).failed = true := feed_failed h _

end Session

/-! ## Fragmentation -/

/-- The bytes of the frames since the last one with the final bit. -/
def collected (fs : List Frame) : Bytes := fs.foldl (fun acc f => f.carry acc) []

/-- Text, binary or continuation. -/
def Frame.isData (f : Frame) : Bool := f.opCode = 0 || f.opCode = 1 || f.opCode = 2

/-- A message is in progress after the frames: the last data frame was not final. -/
def inProgress (fs : List Frame) : Bool :=
  fs.foldl (fun progress f => if f.isData then !f.fin else progress) false

/-- Each of the frames is admitted where it stands. -/
def Admitted (fs : List Frame) : Prop :=
  ∀ pre f, pre ++ [f] <+: fs → f.admitted (collected pre) = true

/-- The size limit, at each of the frames. -/
def WithinLimit (fs : List Frame) : Prop :=
  ∀ pre f, pre ++ [f] <+: fs → (collected pre).length + f.payload.length ≤ kMaxLength

theorem collected_snoc (fs : List Frame) (f : Frame) :
    collected (fs ++ [f]) = f.carry (collected fs) := by
  rw [collected, List.foldl_append]
  rfl

theorem Admitted.snoc_iff {fs : List Frame} {f : Frame} :
    Admitted (fs ++ [f]) ↔ Admitted fs ∧ f.admitted (collected fs) = true := by
  constructor
  · intro h
    exact ⟨fun pre g hp => h pre g (hp.trans (List.prefix_append _ _)), h fs f List.prefix_rfl⟩
  · rintro ⟨h, hf⟩ pre g hp
    rcases List.prefix_concat_iff.mp hp with heq | hp
    · obtain ⟨rfl, rfl⟩ := List.append_singleton_inj.mp heq
      exact hf
    · exact h pre g hp

theorem WithinLimit.take {fs gs : List Frame} (h : WithinLimit fs) (hp : gs <+: fs) :
    WithinLimit gs := fun pre f hpre => h pre f (hpre.trans hp)

theorem frames_failed_iff {fs : List Frame} (hsize : WithinLimit fs) :
    ((Session.frames {} fs).failed = false ↔ Admitted fs) ∧
      (Admitted fs → Session.Ready (collected fs) (Session.frames {} fs)) := by
  induction fs using List.reverseRecOn with
  | nil =>
    exact ⟨⟨fun _ pre f hp => by simp at hp, fun _ => rfl⟩, fun _ => Session.ready_init⟩
  | append_singleton fs f ih =>
    obtain ⟨hfail, hready⟩ := ih (hsize.take (List.prefix_append _ _))
    rw [Session.frames_append, Session.frames_cons, Session.frames_nil, Admitted.snoc_iff,
      collected_snoc]
    by_cases had : Admitted fs
    · have hr := hready had
      cases ha : f.admitted (collected fs) with
      | true =>
        obtain ⟨hnext, -⟩ := Session.receive_admitted hr ha (hsize fs f List.prefix_rfl)
        exact ⟨⟨fun _ => ⟨had, rfl⟩, fun _ => hnext.failed⟩, fun _ => hnext⟩
      | false =>
        have hf := Session.receive_refused hr ha
        rw [hf]
        simp
    · have hf : (Session.frames {} fs).failed = true := by
        by_contra hne
        exact had (hfail.mp (by simpa using hne))
      have hf' := Session.failed_frames hf [f]
      rw [Session.frames_cons, Session.frames_nil] at hf'
      rw [hf']
      simp [had]

/-- `Parse` accepts the last of the frames, given that it accepted those before. -/
def Fragmentation (fs : List Frame) : Prop :=
  ∀ pre f, pre ++ [f] <+: fs → (Session.frames {} pre).failed = false →
    (f.opCode = 0 →
      ((Session.frames {} (pre ++ [f])).failed = false ↔ inProgress pre = true)) ∧
    (f.opCode = 1 ∨ f.opCode = 2 →
      ((Session.frames {} (pre ++ [f])).failed = false ↔ inProgress pre = false))

/-- **Fragmentation.** For every sequence of frames within the size limit, `Parse` accepts a
continuation exactly when a message is in progress, and a text or binary frame exactly when none is,
if and only if text and binary frames only come when none is in progress, and at each continuation
there are bytes since the last final frame exactly when one is. -/
theorem fragmentation_iff (fs : List Frame) (hsize : WithinLimit fs) :
    Fragmentation fs ↔
      ∀ pre f, pre ++ [f] <+: fs → Admitted pre →
        (f.opCode = 0 → (collected pre ≠ [] ↔ inProgress pre = true)) ∧
        (f.opCode = 1 ∨ f.opCode = 2 → inProgress pre = false) := by
  have hpoint : ∀ pre f, pre ++ [f] <+: fs → Admitted pre →
      ((Session.frames {} (pre ++ [f])).failed = false ↔ f.admitted (collected pre) = true) := by
    intro pre f hp had
    rw [(frames_failed_iff (hsize.take hp)).1, Admitted.snoc_iff]
    exact ⟨fun h => h.2, fun h => ⟨had, h⟩⟩
  have hfailed : ∀ pre f, pre ++ [f] <+: fs →
      ((Session.frames {} pre).failed = false ↔ Admitted pre) := fun pre f hp =>
    (frames_failed_iff (hsize.take ((List.prefix_append _ _).trans hp))).1
  constructor
  · intro h pre f hp had
    obtain ⟨hcont, hdata⟩ := h pre f hp ((hfailed pre f hp).mpr had)
    rw [hpoint pre f hp had] at hcont hdata
    refine ⟨fun h0 => ?_, fun h12 => (hdata h12).mp (Frame.admitted_data h12 _)⟩
    rw [← hcont h0, Frame.admitted_continue h0]
    simp
  · intro h pre f hp hf
    have had := (hfailed pre f hp).mp hf
    obtain ⟨hcont, hdata⟩ := h pre f hp had
    rw [hpoint pre f hp had]
    refine ⟨fun h0 => ?_, fun h12 => ?_⟩
    · rw [← hcont h0, Frame.admitted_continue h0]
      simp
    · simp [Frame.admitted_data h12, hdata h12]

theorem length_shortKey : ([1, 2, 3, 4] : Bytes).length = 4 := rfl

/-- A frame with a short payload, masked with the key `01 02 03 04`. -/
def shortFrame (fin : Bool) (opCode : Fin 16) (payload : Bytes) (h : payload.length < 126) :
    Frame where
  fin := fin
  rsv := 0
  opCode := opCode
  form := .inline
  key := [1, 2, 3, 4]
  payload := payload
  key_length := length_shortKey
  fits := h

theorem forall_snoc_prefix_cons {α : Type} {P : List α → α → Prop} {a : α} {as : List α} :
    (∀ pre x, pre ++ [x] <+: a :: as → P pre x) ↔
      P [] a ∧ ∀ pre x, pre ++ [x] <+: as → P (a :: pre) x := by
  constructor
  · intro h
    exact ⟨h [] a (by simp), fun pre x hp => h (a :: pre) x (by simpa using hp)⟩
  · rintro ⟨h, hs⟩ pre x hp
    cases pre with
    | nil =>
      obtain ⟨rfl, -⟩ := List.cons_prefix_cons.mp hp
      exact h
    | cons b pre =>
      obtain ⟨rfl, hp'⟩ := List.cons_prefix_cons.mp hp
      exact hs pre x hp'

/-- A text frame and its continuation. -/
def twoFragments : List Frame :=
  [shortFrame false 1 [0x61] (by decide), shortFrame true 0 [0x62] (by decide)]

theorem fragmentation_two_fragments : Fragmentation twoFragments := by
  refine (fragmentation_iff twoFragments ?_).mpr ?_
  · unfold WithinLimit twoFragments
    simp only [forall_snoc_prefix_cons]
    refine ⟨by decide, by decide, fun pre f hp => ?_⟩
    simp at hp
  · unfold twoFragments
    simp only [forall_snoc_prefix_cons]
    refine ⟨fun _ => by decide, fun _ => by decide, fun pre f hp => ?_⟩
    simp at hp

/-- A text frame is accepted in the middle of a message, and a continuation is not accepted behind
an empty fragment. -/
theorem fragmentation_broken :
    (inProgress [shortFrame false 1 [0x61] (by decide)] = true ∧
      (Session.frames {} [shortFrame false 1 [0x61] (by decide),
        shortFrame true 1 [0x62] (by decide)]).failed = false) ∧
    (inProgress [shortFrame false 1 [] (by decide)] = true ∧
      (Session.frames {} [shortFrame false 1 [] (by decide)]).failed = false ∧
      (Session.frames {} [shortFrame false 1 [] (by decide),
        shortFrame true 0 [0x62] (by decide)]).failed = true) := by
  decide +kernel

/-! ## Control frames between fragments -/

/-- A message in fragments, each later one with the control frames that stand before it. -/
structure Interleaved where
  first : Frame
  rest : List (List Frame × Frame)
  opens : first.opCode = 1 ∨ first.opCode = 2
  continues : ∀ r ∈ rest, r.2.opCode = 0
  controls : ∀ r ∈ rest, ∀ c ∈ r.1,
    (c.opCode = 8 ∨ c.opCode = 9 ∨ c.opCode = 10) ∧ c.fin = true
  final : (first :: rest.map Prod.snd).map (·.fin) = List.replicate rest.length false ++ [true]
  size : ((first :: rest.map Prod.snd).map fun f => f.payload.length).sum ≤ kMaxLength

namespace Interleaved

/-- The frames from a fragment on, with the control frames before each. -/
def stream (rest : List (List Frame × Frame)) : List Frame := rest.flatMap fun r => r.1 ++ [r.2]

def frames (m : Interleaved) : List Frame := m.first :: stream m.rest

/-- The payload of the data message. -/
def payload (m : Interleaved) : Bytes :=
  ((m.first :: m.rest.map Prod.snd).map (·.payload)).flatten

/-- The message is complete with its last fragment, with the payload of its fragments; before that,
nothing but the payloads of control frames is reported. -/
def Intact (m : Interleaved) : Prop :=
  (Session.frames {} m.frames).failed = false ∧
  (Session.frames {} m.frames).delivered =
    (Session.frames {} m.frames.dropLast).delivered ++ [m.payload] ∧
  ∀ d ∈ (Session.frames {} m.frames.dropLast).delivered,
    ∃ r ∈ m.rest, ∃ c ∈ r.1, d = c.payload

open Session

theorem frames_controls {g : List Frame} (hg : ∀ c ∈ g, c.fin = true) :
    ∀ {s : Session}, Ready [] s → (s.frames g).failed = true ∨ Ready [] (s.frames g) := by
  induction g with
  | nil => exact fun h => .inr h
  | cons c g ih =>
    intro s h
    rw [frames_cons]
    rcases receive_frame (f := c) h with hf | ⟨hr, -⟩
    · exact .inl (failed_frames hf g)
    · have hcarry : c.carry [] = [] := by simp [Frame.carry, hg c (by simp)]
      rw [hcarry] at hr
      exact ih (fun x hx => hg x (List.mem_cons_of_mem _ hx)) hr

theorem frames_after_none {g : List Frame} {f : Frame} {rest : List (List Frame × Frame)}
    {s : Session} (h : Ready [] s) (hg : ∀ c ∈ g, c.fin = true) (hf : f.opCode = 0) :
    (s.frames (stream ((g, f) :: rest))).failed = true := by
  rw [stream, List.flatMap_cons, List.append_assoc, frames_append]
  rcases frames_controls hg h with hfail | hr
  · exact failed_frames hfail _
  · rw [List.singleton_append, frames_cons]
    refine failed_frames (receive_refused hr ?_) _
    rw [Frame.admitted_continue hf]
    rfl

theorem frames_after_control {rest : List (List Frame × Frame)}
    (hcont : ∀ r ∈ rest, r.2.opCode = 0) (hctl : ∀ r ∈ rest, ∀ c ∈ r.1, c.fin = true)
    (hgap : ∃ r ∈ rest, r.1 ≠ []) :
    ∀ {acc : Bytes} {s : Session}, Ready acc s → (s.frames (stream rest)).failed = true := by
  induction rest with
  | nil =>
    obtain ⟨r, hr, -⟩ := hgap
    cases hr
  | cons r rest ih =>
    intro acc s h
    obtain ⟨g, f⟩ := r
    cases g with
    | cons c g =>
      -- the bytes so far end with the control frame
      have hc : c.fin = true := hctl (c :: g, f) (by simp) c (by simp)
      rw [show stream ((c :: g, f) :: rest) = c :: stream ((g, f) :: rest) from rfl, frames_cons]
      rcases receive_frame (f := c) h with hfail | ⟨hr, -⟩
      · exact failed_frames hfail _
      · have hcarry : c.carry acc = [] := by simp [Frame.carry, hc]
        rw [hcarry] at hr
        exact frames_after_none hr
          (fun x hx => hctl (c :: g, f) (by simp) x (List.mem_cons_of_mem _ hx))
          (hcont (c :: g, f) (by simp))
    | nil =>
      have hgap' : ∃ r ∈ rest, r.1 ≠ [] := by
        obtain ⟨r, hr, hne⟩ := hgap
        rcases List.mem_cons.mp hr with rfl | hr
        · exact absurd rfl hne
        · exact ⟨r, hr, hne⟩
      rw [show stream (([], f) :: rest) = f :: stream rest from rfl, frames_cons]
      rcases receive_frame (f := f) h with hfail | ⟨hr, -⟩
      · exact failed_frames hfail _
      · exact ih (fun x hx => hcont x (List.mem_cons_of_mem _ hx))
          (fun x hx => hctl x (List.mem_cons_of_mem _ hx)) hgap' hr

/-- The fragments as a message of their own. -/
def message (m : Interleaved) (hne : m.first.payload ≠ []) : Message where
  first := m.first
  rest := m.rest.map Prod.snd
  opens := m.opens
  nonempty := hne
  continues f hf := by
    obtain ⟨r, hr, rfl⟩ := List.mem_map.mp hf
    exact m.continues r hr
  final := by simpa using m.final
  size := m.size

theorem stream_of_no_controls {rest : List (List Frame × Frame)} (h : ∀ r ∈ rest, r.1 = []) :
    stream rest = rest.map Prod.snd := by
  induction rest with
  | nil => rfl
  | cons r rest ih =>
    rw [stream, List.flatMap_cons, h r (by simp)]
    exact congrArg _ (ih fun x hx => h x (List.mem_cons_of_mem _ hx))

/-- Where `Parse` accepts every frame, there is no control frame, and no empty first fragment. -/
theorem of_not_failed {m : Interleaved} (h : (Session.frames {} m.frames).failed = false) :
    (∀ r ∈ m.rest, r.1 = []) ∧ (m.rest ≠ [] → m.first.payload ≠ []) := by
  have hctl : ∀ r ∈ m.rest, ∀ c ∈ r.1, c.fin = true := fun r hr c hc => (m.controls r hr c hc).2
  rw [frames, frames_cons] at h
  rcases receive_frame (f := m.first) ready_init with hfail | ⟨hr, -⟩
  · rw [failed_frames hfail] at h
    cases h
  constructor
  · by_contra hgap
    simp only [not_forall] at hgap
    obtain ⟨r, hmem, hne⟩ := hgap
    rw [frames_after_control m.continues hctl ⟨r, hmem, hne⟩ hr] at h
    cases h
  · intro hrest hempty
    obtain ⟨⟨g, f⟩, rest, hcons⟩ := List.exists_cons_of_ne_nil hrest
    have hmem : (g, f) ∈ m.rest := by simp [hcons]
    have hcarry : m.first.carry [] = [] := by
      rw [Frame.carry, hempty]
      split <;> rfl
    rw [hcarry] at hr
    rw [hcons, frames_after_none hr (hctl _ hmem) (m.continues _ hmem)] at h
    cases h

theorem deliveries_of_not_final {fs : List Frame} (h : ∀ f ∈ fs, f.fin = false) (acc : Bytes) :
    deliveries acc fs = [] := by
  induction fs generalizing acc with
  | nil => rfl
  | cons f fs ih =>
    rw [deliveries, h f (by simp)]
    exact ih (fun g hg => h g (List.mem_cons_of_mem _ hg)) _

theorem allAccepted_append {fs gs : List Frame} :
    ∀ {acc : Bytes}, AllAccepted acc (fs ++ gs) → AllAccepted acc fs := by
  induction fs with
  | nil => exact fun _ => trivial
  | cons f fs ih => exact fun h => ⟨h.1, ih h.2⟩

/-- The fragments of a message that goes on behind a non-empty one, and the bits of all but the
last. -/
theorem frames_message {m : Interleaved} (hne : m.first.payload ≠ [])
    (hgap : ∀ r ∈ m.rest, r.1 = []) :
    AllAccepted [] m.frames ∧ deliveries [] m.frames = [m.payload] ∧
      ∀ f ∈ m.frames.dropLast, f.fin = false := by
  have hframes : m.frames = (m.message hne).frames := by
    rw [frames, stream_of_no_controls hgap]
    rfl
  obtain ⟨hall, hdel⟩ := messages_accepted [m.message hne]
  rw [List.flatMap_singleton, ← hframes] at hall hdel
  refine ⟨hall, hdel, fun f hf => ?_⟩
  have hfin := congrArg List.dropLast (m.message hne).final
  rw [← List.map_dropLast, List.dropLast_concat] at hfin
  rw [hframes] at hf
  have hmem : f.fin ∈ ((m.message hne).first :: (m.message hne).rest).dropLast.map (·.fin) :=
    List.mem_map_of_mem hf
  rw [hfin] at hmem
  exact List.eq_of_mem_replicate hmem

/-- **Control frames.** A message arrives as it was sent, complete with its last fragment and made
of its fragments only, if and only if no control frame stands between its fragments and it does not
go on behind an empty first fragment. -/
theorem intact_iff (m : Interleaved) :
    m.Intact ↔ (∀ r ∈ m.rest, r.1 = []) ∧ (m.rest ≠ [] → m.first.payload ≠ []) := by
  constructor
  · intro h
    exact of_not_failed h.1
  · rintro ⟨hgap, hempty⟩
    by_cases hrest : m.rest = []
    · -- one frame
      have hfin : m.first.fin = true := by simpa [hrest] using m.final
      have hsize : ([] : Bytes).length + m.first.payload.length ≤ kMaxLength := by
        simpa [hrest] using m.size
      obtain ⟨hr, hdel⟩ := receive_admitted ready_init (Frame.admitted_data m.opens []) hsize
      have hframes : m.frames = [m.first] := by rw [frames, hrest]; rfl
      have hpayload : m.payload = m.first.payload := by simp [payload, hrest]
      unfold Intact
      rw [hframes, hpayload, frames_cons, Session.frames_nil, hdel, hfin]
      exact ⟨hr.failed, rfl, fun d hd => by cases hd⟩
    · obtain ⟨hall, hdel, hfin⟩ := frames_message (hempty hrest) hgap
      have hne : ∀ (fs : List Frame), ∀ c ∈ fs.map Frame.encode, c ≠ [] := by
        intro fs c hc
        obtain ⟨f, -, rfl⟩ := List.mem_map.mp hc
        exact f.encode_ne_nil
      have hsplit := List.dropLast_append_getLast (show m.frames ≠ [] by simp [frames])
      obtain ⟨hfail, hd, -⟩ := feed_refines hall ready_init (hne _) (Cut.Refines.refl _)
      obtain ⟨-, hd', -⟩ := feed_refines (allAccepted_append (hsplit ▸ hall)) ready_init (hne _)
        (Cut.Refines.refl _)
      rw [deliveries_of_not_final hfin] at hd'
      rw [hdel] at hd
      refine ⟨hfail, ?_, ?_⟩
      · rw [Session.frames, hd, Session.frames, hd']
        rfl
      · intro d hmem
        rw [Session.frames, hd'] at hmem
        cases hmem

/-- A text message in two fragments with a ping between them. -/
def pinged : Interleaved where
  first := shortFrame false 1 [0x61] (by decide)
  rest := [([shortFrame true 9 [0x21] (by decide)], shortFrame true 0 [0x62] (by decide))]
  opens := .inl rfl
  continues := by simp [shortFrame]
  controls := by simp [shortFrame]
  final := rfl
  size := by simp [shortFrame, kMaxLength]

/-- The ping ends the message, with its own payload in it, and the last fragment is refused. -/
theorem ping_ends_message :
    ¬ pinged.Intact ∧
    (Session.frames {} pinged.frames.dropLast).delivered = [[0x61, 0x21]] ∧
    (Session.frames {} pinged.frames).failed = true := by
  have hfailed : (Session.frames {} pinged.frames).failed = true := by decide +kernel
  refine ⟨fun h => ?_, by decide +kernel, hfailed⟩
  rw [h.1] at hfailed
  cases hfailed

end Interleaved

end Http
end CoSocket
