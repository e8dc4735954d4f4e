import CoSocket.Third.Cuts

/-!
# Third.Limits

The limit on the size of a header holds (`head_limited`): before the end of the first header the
parser does not read more than `HTTP_MAX_HEADER_SIZE` bytes, however they come. `Head` is what the
states up to there have in common; in them every byte is counted (`Counts`).
-/

namespace CoSocket
namespace Third

open Base Pieces

/-- The states up to the end of the first header. -/
def State.inHead : State → Bool
  | .chunkSizeStart | .chunkSize | .chunkParameters | .chunkSizeAlmostDone | .headersDone => false
  | .chunkData | .chunkDataAlmostDone | .chunkDataDone => false
  | .bodyIdentity | .bodyIdentityEof | .messageDone => false
  | _ => true

structure Head (p : Parser) : Prop where
  state : p.state.inHead = true
  trailing : p.flags.trailing = false

/-- The header goes on behind these acts. -/
def Ends (acts : List Action) : Prop := .note .headersComplete ∈ acts

/-- The step stays in the header, ends it, or fails. -/
def Step.Head (n : Nat) (s : Step) : Prop :=
  s.outcome = .error ∨ s.outcome = .abort ∨ Ends s.acts ∨
    s.outcome = .next ∧ Third.Head s.parser ∧ s.parser.nread = n

theorem Step.Head.next {p : Parser} (h : Third.Head p) (acts : List Action) :
    (Step.next p acts).Head p.nread := .inr (.inr (.inr ⟨rfl, h, rfl⟩))

theorem Step.Head.fail (n : Nat) (p : Parser) (e : Errno) : (Step.fail p e).Head n := .inl rfl

theorem Step.Head.after {n : Nat} {s : Step} (h : s.Head n) (acts : List Action) :
    (s.after acts).Head n := by
  rcases h with h | h | h | h
  · exact .inl h
  · exact .inr (.inl h)
  · exact .inr (.inr (.inl (List.mem_append_right acts h)))
  · exact .inr (.inr (.inr h))

/-! ## One byte -/

section Handlers

variable {p : Parser} (h : Head p) (ch : UInt8)

include h

theorem Head.move {s : State} (hs : s.inHead = true) : Head { p with state := s } :=
  ⟨hs, h.trailing⟩

theorem head_headersAlmostDone : (headersAlmostDone p ch).Head p.nread := by
  unfold headersAlmostDone
  split
  · exact .inl rfl
  rw [if_neg (by rw [h.trailing]; decide)]
  split
  · exact .inl rfl
  · exact .inr (.inr (.inl List.mem_cons_self))

theorem head_headerFieldStart : (headerFieldStart p ch).Head p.nread := by
  unfold headerFieldStart
  split
  · exact .next (h.move rfl) _
  split
  · exact head_headersAlmostDone (h.move rfl) ch
  split
  · exact .inl rfl
  · exact .inr (.inr (.inr ⟨rfl, ⟨rfl, h.trailing⟩, rfl⟩))

theorem head_headerFlag : Head { headerFlag p with state := .headerFieldStart } := by
  refine ⟨rfl, ?_⟩
  rw [← h.trailing]
  unfold headerFlag
  split <;> rfl

theorem head_headerValueStart : (headerValueStart p ch).Head p.nread := by
  unfold headerValueStart
  dsimp only
  repeat' split
  all_goals first
    | exact .inl rfl
    | exact .inr (.inr (.inr ⟨rfl, ⟨rfl, h.trailing⟩, rfl⟩))

theorem head_urlChar (s : State) : (urlChar p s ch).Head p.nread := by
  unfold urlChar
  dsimp only
  split
  · exact .inl rfl
  · rename_i hdead
    have hurl := (parseUrlChar_cases s ch).resolve_left hdead
    refine .inr (.inr (.inr ⟨rfl, ⟨?_, h.trailing⟩, rfl⟩))
    show (parseUrlChar s ch).inHead = true
    revert hurl
    cases parseUrlChar s ch <;> first
      | exact fun _ => rfl
      | exact fun hurl => absurd hurl (by decide)

theorem head_startReq : (startReq p ch).Head p.nread := by
  unfold startReq
  dsimp only [startMessage]
  repeat' split
  all_goals first
    | exact .inl rfl
    | exact .inr (.inr (.inr ⟨rfl, ⟨rfl, rfl⟩, rfl⟩))
    | exact .next h _

theorem head_headerFieldStart_behind :
    (headerFieldStart { headerFlag p with state := .headerFieldStart } ch).Head p.nread := by
  have hflag : ({ headerFlag p with state := .headerFieldStart } : Parser).nread = p.nread := by
    unfold headerFlag
    split <;> rfl
  rw [← hflag]
  exact head_headerFieldStart (head_headerFlag h) ch

/-- A byte of the header that does not end it is not counted by its state: it has been counted. -/
theorem head_handle : (handle p ch).Head p.nread := by
  unfold handle
  cases hs : p.state with
  | startReq => exact head_startReq h ch
  | startReqOrRes =>
    dsimp only
    unfold startReqOrRes
    dsimp only [startMessage]
    split
    · exact .next h _
    split
    · exact .inr (.inr (.inr ⟨rfl, ⟨rfl, rfl⟩, rfl⟩))
    · exact head_startReq ⟨rfl, rfl⟩ ch
  | headerFieldStart => exact head_headerFieldStart h ch
  | headerValueStart => exact head_headerValueStart h ch
  | headersAlmostDone => exact head_headersAlmostDone h ch
  | headerValueDiscardWs =>
    dsimp only
    unfold headerValueDiscardWs
    split
    · exact .next h _
    split
    · exact .next (h.move rfl) _
    split
    · exact .next (h.move rfl) _
    · exact head_headerValueStart h ch
  | headerValueLws =>
    dsimp only
    unfold headerValueLws
    split
    · exact head_headerValueStart (p := { p with state := .headerValueStart }) (h.move rfl) ch
    · exact head_headerFieldStart_behind h ch
  | headerValueDiscardLws =>
    dsimp only
    unfold headerValueDiscardLws
    split
    · exact .next (h.move rfl) _
    · exact (head_headerFieldStart_behind h ch).after _
  | reqSpacesBeforeUrl =>
    dsimp only
    unfold reqSpacesBeforeUrl
    split
    · exact .next h _
    · exact (head_urlChar h ch _).after _
  | reqSchema | reqSchemaSlash | reqSchemaSlashSlash | reqServerStart =>
    dsimp only
    unfold reqSchema
    split
    · exact .inl rfl
    · exact head_urlChar h ch _
  | reqServer | reqServerWithAt | reqPath | reqQueryStringStart | reqQueryString
  | reqFragmentStart | reqFragment =>
    dsimp only
    unfold reqUrl
    split
    · exact .next (h.move rfl) _
    split
    · refine .inr (.inr (.inr ⟨rfl, ⟨?_, h.trailing⟩, rfl⟩))
      show (if ch = CR then State.reqLineAlmostDone else .headerFieldStart).inHead = true
      split <;> rfl
    · exact head_urlChar h ch _
  | headerField | headerValue | bodyIdentity | bodyIdentityEof | chunkData => exact .inr (.inl rfl)
  | chunkSizeStart | chunkSize | chunkParameters | chunkSizeAlmostDone | headersDone
  | chunkDataAlmostDone | chunkDataDone | messageDone =>
    have := h.state
    rw [hs] at this
    cases this
  | _ =>
    dsimp only [closed, resOrRespH, startRes, startMessage, expect, firstHttpMajor, httpMajor,
      firstHttpMinor, nextHttpMinor, resHttpMinor, reqHttpMinor, resFirstStatusCode, resStatusCode,
      resStatusStart, resStatus, reqMethod, reqHttpStart]
    repeat' split
    all_goals first
      | exact .inl rfl
      | exact .inr (.inl rfl)
      | exact .inr (.inr (.inr ⟨rfl, ⟨rfl, h.trailing⟩, rfl⟩))
      | exact .inr (.inr (.inr ⟨rfl, ⟨rfl, rfl⟩, rfl⟩))
      | exact .inr (.inr (.inr ⟨rfl, ⟨h.state, h.trailing⟩, rfl⟩))
      | exact .inr (.inr (.inr ⟨rfl, ⟨h.state, rfl⟩, rfl⟩))

end Handlers

/-! ## Several bytes -/

theorem headerFieldByte_trailing (p : Parser) (ch : UInt8) :
    (headerFieldByte p ch).parser.flags.trailing = p.flags.trailing := by
  unfold headerFieldByte
  dsimp only
  repeat' split
  all_goals rfl

theorem headerValueByte_trailing (p : Parser) (ch : UInt8) :
    (headerValueByte p ch).parser.flags.trailing = p.flags.trailing := by
  unfold headerValueByte headerFlag
  dsimp only
  repeat' split
  all_goals rfl

theorem headerFieldLoop_trailing (p : Parser) (data : Bytes) :
    (headerFieldLoop p data).parser.flags.trailing = p.flags.trailing := by
  induction data generalizing p with
  | nil => rfl
  | cons ch rest ih =>
    have hbyte := headerFieldByte_trailing p ch
    unfold headerFieldLoop
    split
    · rfl
    · generalize headerFieldByte p ch = s at hbyte ⊢
      obtain ⟨p', acts, outcome⟩ := s
      cases outcome with
      | next => exact (ih p').trans hbyte
      | exit | error | abort => exact hbyte

theorem headerValueLoop_trailing (p : Parser) (data : Bytes) :
    (headerValueLoop p data).parser.flags.trailing = p.flags.trailing := by
  induction data generalizing p with
  | nil => rfl
  | cons ch rest ih =>
    have hbyte := headerValueByte_trailing p ch
    unfold headerValueLoop
    split
    · rfl
    split
    · rfl
    split
    · rfl
    · generalize headerValueByte p ch = s at hbyte ⊢
      obtain ⟨p', acts, outcome⟩ := s
      cases outcome with
      | next => exact (ih p').trans hbyte
      | exit | error | abort => exact hbyte

/-- The round stays in the header and has counted what it read, ends the header, or fails; `n` is
what was to be counted, with the bytes that are left. -/
def Move.Head (n : Nat) (mv : Move) : Prop :=
  mv.outcome = .error ∨ mv.outcome = .abort ∨ Ends mv.acts ∨
    mv.outcome = .next ∧ Third.Head mv.parser ∧ n ≤ mv.parser.nread + mv.rest.length

theorem Step.Head.move {n : Nat} {s : Step} (h : s.Head n) (ch : UInt8) (rest : Bytes) :
    (s.move ch rest).Head (n + rest.length) := by
  rcases h with h | h | h | ⟨hnext, hhead, hn⟩
  · exact .inl h
  · exact .inr (.inl h)
  · exact .inr (.inr (.inl (List.mem_append_left _ h)))
  · refine .inr (.inr (.inr ⟨hnext, hhead, ?_⟩))
    dsimp only [Step.move]
    rw [if_pos (.inl hnext), hn]

theorem Move.Head.counted {p : Parser} {n m : Nat} {acts : List Action} {rest : Bytes}
    {k : Parser → Move} (hroom : p.nread + n < 2 ^ 32)
    (h : (k { p with nread := p.nread + n }).Head m) : (counted p n acts rest k).Head m := by
  unfold Third.counted
  split
  · exact .inl rfl
  · rw [countHeaderSize, Nat.mod_eq_of_lt hroom]
    exact h

theorem Move.Head.mono {n m : Nat} {mv : Move} (h : mv.Head n) (hm : m ≤ n) : mv.Head m := by
  rcases h with h | h | h | ⟨hnext, hhead, hn⟩
  · exact .inl h
  · exact .inr (.inl h)
  · exact .inr (.inr (.inl h))
  · exact .inr (.inr (.inr ⟨hnext, hhead, hm.trans hn⟩))

theorem head_headerField {p : Parser} (hin : Inside .headerField HeaderStates.inField p)
    (ht : p.flags.trailing = false) {data : Bytes} (hroom : p.nread + data.length < 2 ^ 32) :
    (headerField p data).Head (p.nread + data.length - 1) := by
  have hscan := sound_headerFieldLoop hin data
  have hnread := nread_headerFieldLoop p data
  have htrailing := (headerFieldLoop_trailing p data).trans ht
  unfold headerField
  generalize headerFieldLoop p data = s at hscan hnread htrailing ⊢
  have hlen := congrArg List.length hscan.split
  rw [List.length_append] at hlen
  rcases hscan.next with hnext | herror
  · have hstate := (hscan.stays hnext).state
    rw [fieldEnd_next hnext]
    refine .counted (by omega) ?_
    dsimp only
    cases hrest : s.rest with
    | nil =>
      rw [hrest, List.length_nil] at hlen
      refine .inr (.inr (.inr ⟨rfl, ⟨by rw [hstate]; rfl, htrailing⟩, ?_⟩))
      dsimp only [List.length_nil]
      omega
    | cons ch rest =>
      rw [hrest, List.length_cons] at hlen
      dsimp only
      split
      · refine .inr (.inr (.inr ⟨rfl, ⟨rfl, htrailing⟩, ?_⟩))
        dsimp only
        omega
      · exact .inl rfl
  · refine .inl ?_
    rw [fieldEnd, if_pos (by simp [herror])]
    exact herror

theorem head_headerValue {p : Parser} (hin : Inside .headerValue HeaderStates.inValue p)
    (ht : p.flags.trailing = false) {data : Bytes} (hroom : p.nread + data.length < 2 ^ 32) :
    (headerValue p data).Head (p.nread + data.length - 1) := by
  have hscan := sound_headerValueLoop hin data
  have hnread := nread_headerValueLoop p data
  have htrailing := (headerValueLoop_trailing p data).trans ht
  unfold headerValue
  generalize headerValueLoop p data = s at hscan hnread htrailing ⊢
  have hlen := congrArg List.length hscan.split
  rw [List.length_append] at hlen
  rcases hscan.next with hnext | herror
  · have hstate := (hscan.stays hnext).state
    cases hrest : s.rest with
    | nil =>
      rw [hrest, List.length_nil] at hlen
      rw [valueEnd_nil hnext hrest]
      refine .counted (by omega) (.inr (.inr (.inr ⟨rfl, ⟨?_, htrailing⟩, ?_⟩)))
      · rw [hstate]
        rfl
      dsimp only [List.length_nil]
      omega
    | cons ch rest =>
      rw [hrest, List.length_cons] at hlen
      rw [valueEnd_cons hnext hrest]
      split
      · refine .counted (by dsimp only; omega) (.mono (Step.Head.move (n := s.parser.nread +
          s.passed.length) (.inr (.inr (.inr ⟨rfl, ⟨rfl, htrailing⟩, rfl⟩))) ch rest) ?_)
        omega
      · refine .counted (by dsimp only; omega) (.mono (Step.Head.move (n := s.parser.nread +
          s.passed.length) (Step.Head.after ?_ _) ch rest) ?_)
        · unfold expect
          split
          · exact .inl rfl
          · exact .inr (.inr (.inr ⟨rfl, ⟨rfl, htrailing⟩, rfl⟩))
        · omega
  · refine .inl ?_
    rw [valueEnd, if_pos (by simp [herror])]
    exact herror

/-! ## The loop -/

theorem Head.parsingHeader {p : Parser} (h : Head p) : p.state.parsingHeader = true := by
  have := h.state
  revert this
  cases p.state <;> first
    | exact fun _ => rfl
    | exact fun hs => absurd hs (by decide)

/-- A length that `nread` can count. -/
def Countable (n : Nat) : Prop := n + HTTP_MAX_HEADER_SIZE < 2 ^ 32

instance decidableCountable (n : Nat) : Decidable (Countable n) :=
  inferInstanceAs (Decidable (n + HTTP_MAX_HEADER_SIZE < 2 ^ 32))

theorem head_dispatch {p : Parser} (hl : Live 0 p) (h : Head p) {q : Parser}
    (hq : q = { p with nread := p.nread + 1 }) (hcount : q.nread ≤ HTTP_MAX_HEADER_SIZE)
    {ch : UInt8} {rest : Bytes} (hroom : Countable (rest.length + 1)) :
    (dispatch q ch rest).Head (q.nread + rest.length) := by
  have hhead : Head q := by
    subst hq
    exact ⟨h.state, h.trailing⟩
  have hfine : Fine q := by
    subst hq
    exact ⟨hl.errno, hl.bound, hcount⟩
  have hgood := hl.good
  have hlen : q.nread + (ch :: rest).length < 2 ^ 32 := by
    rw [Countable] at hroom
    rw [List.length_cons]
    omega
  have hpred : q.nread + rest.length = q.nread + (ch :: rest).length - 1 := by
    rw [List.length_cons]
    omega
  have hstate : p.state = q.state := by rw [hq]
  have hheader : p.headerState = q.headerState := by rw [hq]
  unfold dispatch
  cases hs : q.state with
  | headerField =>
    rw [hpred]
    refine head_headerField ⟨hfine, hs, ?_⟩ hhead.trailing hlen
    simpa [Good, hstate, hs, hheader] using hgood
  | headerValue =>
    rw [hpred]
    refine head_headerValue ⟨hfine, hs, ?_⟩ hhead.trailing hlen
    simpa [Good, hstate, hs, hheader] using hgood
  | bodyIdentity | bodyIdentityEof | chunkData =>
    have := hhead.state
    rw [hs] at this
    cases this
  | _ => exact (head_handle hhead ch).move ch rest

theorem head_iterate {p : Parser} (hl : Live 0 p) (h : Head p) {ch : UInt8} {rest : Bytes}
    (hroom : Countable (rest.length + 1)) :
    (iterate p ch rest).Head (p.nread + (rest.length + 1)) := by
  have hcount := hl.count
  have hsmall : p.nread + 1 < 2 ^ 32 := by
    rw [Countable] at hroom
    omega
  have heq : countHeaderSize p 1 = { p with nread := p.nread + 1 } := by
    rw [countHeaderSize, Nat.mod_eq_of_lt hsmall]
  rw [iterate_header h.parsingHeader, counted]
  split
  · exact .inl rfl
  · rename_i hover
    have hround : (dispatch (countHeaderSize p 1) ch rest).Head _ :=
      head_dispatch hl h heq (Nat.le_of_not_lt hover) hroom
    refine hround.mono ?_
    rw [heq]
    dsimp only
    omega

theorem mem_run_note {e : Note} {acts : List Action} (h : .note e ∈ acts)
    (m : Marks DataKind UInt8) : .note e ∈ (m.run acts).2 := by
  induction acts generalizing m with
  | nil => cases h
  | cons a acts ih =>
    simp only [Marks.run]
    rcases List.mem_cons.mp h with rfl | h
    · exact List.mem_append_left _ List.mem_cons_self
    · exact List.mem_append_right _ (ih h _)

theorem head_loop {p : Parser} (hl : Live 0 p) (h : Head p) (m : Marks DataKind UInt8)
    {rounds : Nat} {data : Bytes} (hlen : data.length ≤ rounds) (hroom : Countable data.length) :
    (loop rounds p m data).outcome = .error ∨ (loop rounds p m data).outcome = .abort ∨
      .note .headersComplete ∈ (loop rounds p m data).events ∨
      (loop rounds p m data).outcome = .next ∧ Head (loop rounds p m data).parser ∧
        p.nread + data.length ≤ (loop rounds p m data).parser.nread := by
  induction rounds generalizing p m data with
  | zero =>
    obtain rfl : data = [] := List.length_eq_zero_iff.mp (Nat.le_zero.mp hlen)
    exact .inr (.inr (.inr ⟨rfl, h, Nat.le_refl _⟩))
  | succ rounds ih =>
    cases data with
    | nil => exact .inr (.inr (.inr ⟨rfl, h, Nat.le_refl _⟩))
    | cons ch rest =>
      have hmove := sound_iterate hl ch rest
      have hhead : (iterate p ch rest).Head _ := head_iterate hl h hroom
      simp only [loop]
      rcases hhead with hout | hout | hends | ⟨hout, hhead, hn⟩
      · rw [hout]
        exact .inl rfl
      · rw [hout]
        exact .inr (.inl rfl)
      · have hnote := mem_run_note hends m
        cases hout : (iterate p ch rest).outcome with
        | next => exact .inr (.inr (.inl (List.mem_append_left _ hnote)))
        | exit | error | abort => exact .inr (.inr (.inl hnote))
      · have hne : (iterate p ch rest).outcome ≠ .error := by simp [hout]
        have hshort := hmove.shorter hne
        rw [List.length_cons] at hlen hroom hshort
        rw [hout]
        dsimp only
        have hroom' : Countable (iterate p ch rest).rest.length := by
          rw [Countable] at hroom ⊢
          omega
        have hlen' : (iterate p ch rest).rest.length ≤ rounds := by omega
        rcases ih (hmove.live hne) hhead _ hlen' hroom' with hr | hr | hr | ⟨hr, hhead', hn'⟩
        · exact .inl hr
        · exact .inr (.inl hr)
        · exact .inr (.inr (.inl (List.mem_append_right _ hr)))
        · refine .inr (.inr (.inr ⟨hr, hhead', ?_⟩))
          rw [List.length_cons]
          exact hn.trans hn'

/-! ## Calls -/

theorem executeEof_cases (p : Parser) :
    (executeEof p).parser = p ∨ (executeEof p).parser.httpErrno = .invalidEofState := by
  unfold executeEof
  split
  all_goals first
    | exact .inl rfl
    | exact .inr rfl

theorem head_execute {p : Parser} (hl : Live 0 p) (h : Head p) {data : Bytes}
    (hroom : Countable data.length) (hok : (execute p data).parser.httpErrno = .ok)
    (hopen : .note .headersComplete ∉ (execute p data).events) :
    Head (execute p data).parser ∧ p.nread + data.length ≤ (execute p data).parser.nread := by
  rw [execute, if_neg (by simp [hl.errno])] at hok hopen ⊢
  by_cases hnil : data = []
  · subst hnil
    rw [if_pos rfl] at hok hopen ⊢
    rcases executeEof_cases p with hsame | herror
    · rw [hsame]
      exact ⟨h, Nat.le_refl _⟩
    · rw [herror] at hok
      cases hok
  · rw [if_neg hnil] at hok hopen ⊢
    have hsound := sound_loop hl (marked_startMarks p.state) (Nat.le_refl data.length)
    have hhead := head_loop hl h (startMarks p.state) (Nat.le_refl data.length) hroom
    unfold finish at hok hopen ⊢
    rcases hhead with hout | hout | hends | ⟨hout, hhead, hn⟩
    · rw [hout] at hok
      exact absurd hok (hsound.failed hout)
    · exact absurd hout hsound.runs
    · exfalso
      cases hout : (loop data.length p (startMarks p.state) data).outcome with
      | next =>
        rw [hout] at hopen
        dsimp only at hopen
        split at hopen
        · exact hopen (List.mem_append_left _ hends)
        · exact hopen hends
      | exit | error | abort =>
        rw [hout] at hopen
        exact hopen hends
    · rw [hout]
      dsimp only
      split
      · exact ⟨hhead, hn⟩
      · exact ⟨hhead, hn⟩

theorem head_feed {p : Parser} (hl : Live 0 p) (h : Head p) {ds : List Bytes}
    (hroom : ∀ d ∈ ds, Countable d.length)
    (hok : ∀ r ∈ calls p ds, r.parser.httpErrno = .ok)
    (hopen : .note .headersComplete ∉ (feed p ds).2) :
    p.nread + ds.flatten.length ≤ HTTP_MAX_HEADER_SIZE := by
  induction ds generalizing p with
  | nil => exact hl.count
  | cons d ds ih =>
    have hfirst := hok _ List.mem_cons_self
    have hlive := (execute_sane (fun _ => hl) d).1 hfirst
    obtain ⟨hhead, hn⟩ := head_execute hl h (hroom d List.mem_cons_self) hfirst
      fun hmem => hopen (List.mem_append_left _ hmem)
    have hrest := ih hlive hhead (fun e he => hroom e (List.mem_cons_of_mem d he))
      (fun r hr => hok r (List.mem_cons_of_mem _ hr))
      fun hmem => hopen (List.mem_append_right _ hmem)
    rw [List.flatten_cons, List.length_append]
    omega

theorem head_init (type : ParserType) : Head (init type) := by
  cases type <;> exact ⟨rfl, rfl⟩

/-- The limit holds: as long as there is no error and the first header is not complete, no more than
`HTTP_MAX_HEADER_SIZE` bytes have been read, however they were cut. The buffers have to be shorter
than what the 32 bits of `nread` can count. -/
theorem head_limited (type : ParserType) {ds : List Bytes} (hroom : ∀ d ∈ ds, Countable d.length)
    (hok : ∀ r ∈ calls (init type) ds, r.parser.httpErrno = .ok)
    (hopen : .note .headersComplete ∉ (feed (init type) ds).2) :
    ds.flatten.length ≤ HTTP_MAX_HEADER_SIZE := by
  have hle := head_feed (live_init type) (head_init type) hroom hok hopen
  rwa [show (init type).nread = 0 from rfl, Nat.zero_add] at hle

/-- A header in four reads, cut inside its words. -/
theorem head_limited_get :
    [bytesOf "GE", bytesOf "T / HTTP/1.1\r\nHo", bytesOf "st: ", bytesOf "a\r\n"].flatten.length ≤
      HTTP_MAX_HEADER_SIZE :=
  @head_limited .both [bytesOf "GE", bytesOf "T / HTTP/1.1\r\nHo", bytesOf "st: ", bytesOf "a\r\n"]
    (by decide +kernel) (by decide +kernel) (by decide +kernel)

end Third
end CoSocket
