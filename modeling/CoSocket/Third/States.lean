import CoSocket.Third.Execute

/-!
# Third.States

What the states of `http_parser` rely on (`Good`), and the mark that may be set in each of them
(`State.kind`). `Step.Sound` says that the work on one byte keeps both and that no assertion fails in
it; there is one lemma for each function of `Third.Machine`.
-/

namespace CoSocket
namespace Third

open Base Pieces

/-! ## The invariant -/

/-- The mark that may be set in the state. -/
def State.kind : State → Option DataKind
  | .headerField => some .headerField
  | .headerValue => some .headerValue
  | .resStatus => some .status
  | .reqPath | .reqSchema | .reqSchemaSlash | .reqSchemaSlashSlash | .reqServerStart => some .url
  | .reqServer | .reqServerWithAt | .reqQueryStringStart | .reqQueryString => some .url
  | .reqFragmentStart | .reqFragment => some .url
  | .bodyIdentity | .bodyIdentityEof | .chunkData | .chunkDataAlmostDone => some .body
  | _ => none

/-- The header states of `s_header_field`. -/
def HeaderStates.inField : HeaderStates → Bool
  | .general | .C | .CO | .CON => true
  | .matchingConnection | .matchingProxyConnection | .matchingContentLength => true
  | .matchingTransferEncoding | .matchingUpgrade => true
  | .connection | .contentLength | .transferEncoding | .upgrade => true
  | _ => false

/-- The header states of `s_header_value`. -/
def HeaderStates.inValue : HeaderStates → Bool
  | .connection | .transferEncoding => false
  | _ => true

/-- What each state relies on; `n` is the number of bytes read of a chunk size. -/
def Good (n : Nat) (p : Parser) : Prop :=
  match p.state with
  | .reqMethod => p.index ≤ p.method.str.length
  | .headerField => p.headerState.inField = true
  | .headerValue => p.headerState.inValue = true
  | .chunkSizeStart => p.flags.chunked = true ∧ p.nread = n
  | .chunkSize | .chunkParameters | .chunkSizeAlmostDone =>
    p.flags.chunked = true ∧ p.contentLength < ULLONG_MAX
  | .chunkData => p.flags.chunked = true ∧ 0 < p.contentLength ∧ p.contentLength < ULLONG_MAX
  | .chunkDataAlmostDone => p.flags.chunked = true ∧ p.contentLength = 0
  | .chunkDataDone => p.flags.chunked = true
  | .bodyIdentity => 0 < p.contentLength ∧ p.contentLength < ULLONG_MAX
  | _ => True

/-- A body may be read with or without its mark. -/
def Fits (o : Option DataKind) (s : State) : Prop := o = s.kind ∨ o = none ∧ s.kind = some .body

/-- The acts hand out the data of the mark that may be set, and lead to one that may be. -/
def Keeps (o : Option DataKind) (acts : List Action) (s : State) : Prop :=
  ∃ o', track o acts = some o' ∧ Fits o' s

/-- The parser between two bytes: there was no error, and it is as its state relies on. -/
structure Live (n : Nat) (p : Parser) : Prop where
  errno : p.httpErrno = .ok
  bound : p.contentLength ≤ ULLONG_MAX
  count : p.nread ≤ HTTP_MAX_HEADER_SIZE
  good : Good n p

structure Step.Sound (o : Option DataKind) (s : Step) : Prop where
  runs : s.outcome ≠ .abort
  failed : s.outcome = .error → s.parser.httpErrno ≠ .ok
  live : s.outcome ≠ .error → Live 0 s.parser
  keeps : s.outcome ≠ .error → Keeps o s.acts s.parser.state
  left : s.outcome = .exit → s.parser.upgrade = true ∧ s.parser.state.kind = none

namespace Step.Sound

variable {o o' : Option DataKind} {p : Parser} {acts : List Action}

theorem next (h : Live 0 p) (hk : Keeps o acts p.state) : (Step.next p acts).Sound o :=
  ⟨by simp [Step.next], by simp [Step.next], fun _ => h, fun _ => hk, by simp [Step.next]⟩

theorem fail {e : Errno} (he : e ≠ .ok) : (Step.fail p e).Sound o := by
  refine ⟨?_, fun _ => he, ?_, ?_, ?_⟩ <;> simp [Step.fail]

theorem after {s : Step} (hs : s.Sound o') (h : ∀ as, track o (acts ++ as) = track o' as) :
    (s.after acts).Sound o := by
  refine ⟨hs.runs, hs.failed, hs.live, fun hout => ?_, hs.left⟩
  obtain ⟨o'', ht, hf⟩ := hs.keeps hout
  exact ⟨o'', (h _).trans ht, hf⟩

end Step.Sound

theorem keeps_nil {s : State} (h : s.kind = none) : Keeps none [] s := ⟨none, rfl, .inl h.symm⟩

theorem keeps_body {s : State} (h : s.kind = some .body) : Keeps none [] s :=
  ⟨none, rfl, .inr ⟨rfl, h⟩⟩

/-! ## The end of a message -/

theorem newMessage_cases (p : Parser) :
    newMessage p = .startReq ∨ newMessage p = .startRes ∨ newMessage p = .dead := by
  unfold newMessage startState
  split
  · split
    · exact .inl rfl
    · exact .inr (.inl rfl)
  · exact .inr (.inr rfl)

/-- The states whose functions do not rely on anything but that there was no error. -/
structure Fine (p : Parser) : Prop where
  errno : p.httpErrno = .ok
  bound : p.contentLength ≤ ULLONG_MAX
  count : p.nread ≤ HTTP_MAX_HEADER_SIZE

theorem Live.fine {n : Nat} {p : Parser} (h : Live n p) : Fine p := ⟨h.errno, h.bound, h.count⟩

theorem sound_complete {p : Parser} {outcome : Outcome} (h : Fine p)
    (ho : outcome = .next ∨ outcome = .exit ∧ p.upgrade = true) :
    (complete p outcome).Sound none := by
  have hgood : Good 0 { p with state := newMessage p } := by
    rcases newMessage_cases p with h | h | h <;> simp [Good, h]
  have hkind : (newMessage p).kind = none := by
    rcases newMessage_cases p with h | h | h <;> simp [State.kind, h]
  have hkeeps : Keeps none (complete p outcome).acts (newMessage p) := ⟨none, rfl, .inl hkind.symm⟩
  rcases ho with rfl | ⟨rfl, hup⟩
  · exact ⟨nofun, nofun, fun _ => ⟨h.errno, h.bound, h.count, hgood⟩, fun _ => hkeeps, nofun⟩
  · exact ⟨nofun, nofun, fun _ => ⟨h.errno, h.bound, h.count, hgood⟩, fun _ => hkeeps,
      fun _ => ⟨hup, hkind⟩⟩

theorem sound_messageDone {p : Parser} (h : Fine p) : (messageDone p).Sound none := by
  refine sound_complete h ?_
  split
  · rename_i hup
    exact .inr ⟨rfl, hup⟩
  · exact .inl rfl

theorem sound_headersDone {p : Parser} (h : Fine p) (ch : UInt8) :
    (headersDone p ch).Sound none := by
  unfold headersDone
  dsimp only
  split
  · exact .fail (by decide)
  have h' : Fine { p with nread := 0 } := ⟨h.errno, h.bound, Nat.zero_le _⟩
  split
  · rename_i hup
    exact sound_complete h' (.inr ⟨rfl, hup.1⟩)
  split
  · exact sound_complete h' (.inl rfl)
  split
  · rename_i hchunked
    exact .next ⟨h.errno, h.bound, Nat.zero_le _, hchunked, rfl⟩ (keeps_nil rfl)
  split
  · exact sound_complete h' (.inl rfl)
  split
  · rename_i h0 hmax
    exact .next ⟨h.errno, h.bound, Nat.zero_le _, Nat.pos_of_ne_zero h0, Nat.lt_of_le_of_ne h.bound hmax⟩
      (keeps_body rfl)
  split
  · exact sound_complete h' (.inl rfl)
  · exact .next ⟨h.errno, h.bound, Nat.zero_le _, trivial⟩ (keeps_body rfl)

theorem sound_headersAlmostDone {p : Parser} (h : Fine p) (ch : UInt8) :
    (headersAlmostDone p ch).Sound none := by
  unfold headersAlmostDone
  split
  · exact .fail (by decide)
  split
  · refine (sound_messageDone ?_).after fun _ => rfl
    exact ⟨h.errno, h.bound, h.count⟩
  split
  · exact .fail (by decide)
  · refine (sound_headersDone ?_ ch).after fun _ => rfl
    exact ⟨h.errno, h.bound, h.count⟩

/-! ## Headers -/

theorem inField_fieldStart (c : UInt8) : (fieldStart c).inField = true := by
  unfold fieldStart
  repeat' split
  all_goals rfl

theorem sound_headerFieldStart {p : Parser} (h : Fine p) (ch : UInt8) :
    (headerFieldStart p ch).Sound none := by
  unfold headerFieldStart
  split
  · exact .next ⟨h.errno, h.bound, h.count, trivial⟩ (keeps_nil rfl)
  split
  · refine sound_headersAlmostDone ?_ ch
    exact ⟨h.errno, h.bound, h.count⟩
  split
  · exact .fail (by decide)
  · exact .next ⟨h.errno, h.bound, h.count, inField_fieldStart _⟩ ⟨_, rfl, .inl rfl⟩

theorem fine_headerFlag {p : Parser} (h : Fine p) : Fine (headerFlag p) := by
  unfold headerFlag
  split <;> exact ⟨h.errno, h.bound, h.count⟩

theorem digit_le (ch : UInt8) : digit ch ≤ 255 := Nat.le_of_lt_succ (UInt8.toNat_lt _)

theorem sound_headerValueStart {p : Parser} (h : Fine p) (ch : UInt8) :
    (headerValueStart p ch).Sound none := by
  have hkeeps : Keeps none [.mark .headerValue] .headerValue := ⟨_, rfl, .inl rfl⟩
  unfold headerValueStart
  dsimp only
  split
  · exact .next ⟨h.errno, h.bound, h.count, rfl⟩ hkeeps
  · split
    · exact .next ⟨h.errno, h.bound, h.count, rfl⟩ hkeeps
    · exact .next ⟨h.errno, h.bound, h.count, rfl⟩ hkeeps
  · split
    · have hfail : (Step.fail { p with state := .headerValue, index := 0 }
          .invalidContentLength).Sound (some .headerValue) := .fail (by decide)
      exact hfail.after fun _ => rfl
    · rename_i hstate _
      exact .next ⟨h.errno, (digit_le ch).trans (by decide), h.count, by simp [Good, hstate,
        HeaderStates.inValue]⟩ hkeeps
  · refine .next ⟨h.errno, h.bound, h.count, ?_⟩ hkeeps
    show (connectionToken (lower ch)).inValue = true
    unfold connectionToken
    repeat' split
    all_goals rfl
  · rename_i hstate
    exact .next ⟨h.errno, h.bound, h.count, by simp [Good, hstate, HeaderStates.inValue]⟩ hkeeps
  · exact .next ⟨h.errno, h.bound, h.count, rfl⟩ hkeeps

theorem sound_headerValueDiscardWs {p : Parser} (h : Live 1 p)
    (hs : p.state = .headerValueDiscardWs) (ch : UInt8) :
    (headerValueDiscardWs p ch).Sound none := by
  unfold headerValueDiscardWs
  split
  · exact .next ⟨h.errno, h.bound, h.count, by simp [Good, hs]⟩ (keeps_nil (by rw [hs]; rfl))
  split
  · exact .next ⟨h.errno, h.bound, h.count, trivial⟩ (keeps_nil rfl)
  split
  · exact .next ⟨h.errno, h.bound, h.count, trivial⟩ (keeps_nil rfl)
  · exact sound_headerValueStart h.fine ch

theorem sound_headerValueLws {p : Parser} (h : Fine p) (ch : UInt8) :
    (headerValueLws p ch).Sound none := by
  have hflag := fine_headerFlag h
  unfold headerValueLws
  split
  · refine sound_headerValueStart ?_ ch
    exact ⟨h.errno, h.bound, h.count⟩
  · refine sound_headerFieldStart ?_ ch
    exact ⟨hflag.errno, hflag.bound, hflag.count⟩

theorem sound_headerValueDiscardLws {p : Parser} (h : Fine p) (ch : UInt8) :
    (headerValueDiscardLws p ch).Sound none := by
  have hflag := fine_headerFlag h
  unfold headerValueDiscardLws
  split
  · exact .next ⟨h.errno, h.bound, h.count, trivial⟩ (keeps_nil rfl)
  · refine (sound_headerFieldStart ?_ ch).after fun _ => rfl
    exact ⟨hflag.errno, hflag.bound, hflag.count⟩

/-! ## The first line -/

theorem sound_expect {p : Parser} (h : Fine p) {want : UInt8} {next : State} {e : Errno}
    (hg : Good 0 { p with state := next }) (hk : next.kind = none) (he : e ≠ .ok) (ch : UInt8) :
    (expect want next e p ch).Sound none := by
  unfold expect
  split
  · exact .fail he
  · exact .next ⟨h.errno, h.bound, h.count, hg⟩ (keeps_nil hk)

theorem sound_startReq {p : Parser} (h : Fine p) (hs : p.state = .startReq) (ch : UInt8) :
    (startReq p ch).Sound none := by
  unfold startReq
  dsimp only
  split
  · exact .next ⟨h.errno, h.bound, h.count, by simp [Good, hs]⟩ (keeps_nil (by rw [hs]; rfl))
  split
  · exact .fail (by decide)
  split
  · exact .fail (by decide)
  · rename_i method _
    refine .next ⟨h.errno, Nat.le_refl _, h.count, ?_⟩ ⟨none, rfl, .inl rfl⟩
    show 1 ≤ method.str.length
    cases method <;> decide

theorem sound_startReqOrRes {p : Parser} (h : Fine p) (hs : p.state = .startReqOrRes)
    (ch : UInt8) : (startReqOrRes p ch).Sound none := by
  unfold startReqOrRes
  dsimp only
  split
  · exact .next ⟨h.errno, h.bound, h.count, by simp [Good, hs]⟩ (keeps_nil (by rw [hs]; rfl))
  split
  · exact .next ⟨h.errno, Nat.le_refl _, h.count, trivial⟩ ⟨none, rfl, .inl rfl⟩
  · refine sound_startReq ?_ rfl ch
    exact ⟨h.errno, Nat.le_refl _, h.count⟩

theorem sound_resOrRespH {p : Parser} (h : Fine p) (ch : UInt8) :
    (resOrRespH p ch).Sound none := by
  unfold resOrRespH
  split
  · exact .next ⟨h.errno, h.bound, h.count, trivial⟩ (keeps_nil rfl)
  split
  · exact .fail (by decide)
  · refine .next ⟨h.errno, h.bound, h.count, ?_⟩ (keeps_nil rfl)
    show 2 ≤ (Method.str .head).length
    decide

theorem sound_startRes {p : Parser} (h : Fine p) (hs : p.state = .startRes) (ch : UInt8) :
    (startRes p ch).Sound none := by
  unfold startRes
  dsimp only
  split
  · exact .next ⟨h.errno, Nat.le_refl _, h.count, trivial⟩ ⟨none, rfl, .inl rfl⟩
  split
  · refine .next ⟨h.errno, Nat.le_refl _, h.count, ?_⟩ ⟨none, rfl, .inl ?_⟩
    · simp [Good, startMessage, hs]
    · simp [startMessage, hs, State.kind]
  · exact .fail (by decide)

theorem sound_firstHttpMajor {p : Parser} (h : Fine p) {least : UInt8} {next : State}
    (hg : ∀ n, Good 0 { p with httpMajor := n, state := next }) (hk : next.kind = none)
    (ch : UInt8) : (firstHttpMajor least next p ch).Sound none := by
  unfold firstHttpMajor
  split
  · exact .fail (by decide)
  · exact .next ⟨h.errno, h.bound, h.count, hg _⟩ (keeps_nil hk)

theorem sound_firstHttpMinor {p : Parser} (h : Fine p) {next : State}
    (hg : ∀ n, Good 0 { p with httpMinor := n, state := next }) (hk : next.kind = none)
    (ch : UInt8) : (firstHttpMinor next p ch).Sound none := by
  unfold firstHttpMinor
  split
  · exact .fail (by decide)
  · exact .next ⟨h.errno, h.bound, h.count, hg _⟩ (keeps_nil hk)

theorem sound_httpMajor {p : Parser} (h : Fine p) (hs : p.state = .resHttpMajor ∨
    p.state = .reqHttpMajor) {next : State} (hg : Good 0 { p with state := next })
    (hk : next.kind = none) (ch : UInt8) : (httpMajor next p ch).Sound none := by
  unfold httpMajor
  dsimp only
  split
  · exact .next ⟨h.errno, h.bound, h.count, hg⟩ (keeps_nil hk)
  split
  · exact .fail (by decide)
  split
  · exact .fail (by decide)
  · refine .next ⟨h.errno, h.bound, h.count, ?_⟩ (keeps_nil ?_)
    · rcases hs with hs | hs <;> simp [Good, hs]
    · rcases hs with hs | hs <;> simp [State.kind, hs]

theorem sound_nextHttpMinor {p : Parser} (h : Fine p) (hs : p.state = .resHttpMinor ∨
    p.state = .reqHttpMinor) (ch : UInt8) : (nextHttpMinor p ch).Sound none := by
  unfold nextHttpMinor
  dsimp only
  split
  · exact .fail (by decide)
  split
  · exact .fail (by decide)
  · refine .next ⟨h.errno, h.bound, h.count, ?_⟩ (keeps_nil ?_)
    · rcases hs with hs | hs <;> simp [Good, hs]
    · rcases hs with hs | hs <;> simp [State.kind, hs]

theorem sound_resHttpMinor {p : Parser} (h : Fine p) (hs : p.state = .resHttpMinor)
    (ch : UInt8) : (resHttpMinor p ch).Sound none := by
  unfold resHttpMinor
  split
  · exact .next ⟨h.errno, h.bound, h.count, trivial⟩ (keeps_nil rfl)
  · exact sound_nextHttpMinor h (.inl hs) ch

theorem sound_reqHttpMinor {p : Parser} (h : Fine p) (hs : p.state = .reqHttpMinor)
    (ch : UInt8) : (reqHttpMinor p ch).Sound none := by
  unfold reqHttpMinor
  split
  · exact .next ⟨h.errno, h.bound, h.count, trivial⟩ (keeps_nil rfl)
  split
  · exact .next ⟨h.errno, h.bound, h.count, trivial⟩ (keeps_nil rfl)
  · exact sound_nextHttpMinor h (.inr hs) ch

theorem sound_resFirstStatusCode {p : Parser} (h : Fine p) (hs : p.state = .resFirstStatusCode)
    (ch : UInt8) : (resFirstStatusCode p ch).Sound none := by
  unfold resFirstStatusCode
  split
  · split
    · exact .next ⟨h.errno, h.bound, h.count, by simp [Good, hs]⟩ (keeps_nil (by rw [hs]; rfl))
    · exact .fail (by decide)
  · exact .next ⟨h.errno, h.bound, h.count, trivial⟩ (keeps_nil rfl)

theorem sound_resStatusCode {p : Parser} (h : Fine p) (hs : p.state = .resStatusCode)
    (ch : UInt8) : (resStatusCode p ch).Sound none := by
  unfold resStatusCode
  dsimp only
  split
  · split
    · exact .next ⟨h.errno, h.bound, h.count, trivial⟩ (keeps_nil rfl)
    split
    · exact .next ⟨h.errno, h.bound, h.count, trivial⟩ (keeps_nil rfl)
    split
    · exact .next ⟨h.errno, h.bound, h.count, trivial⟩ (keeps_nil rfl)
    · exact .fail (by decide)
  split
  · exact .fail (by decide)
  · exact .next ⟨h.errno, h.bound, h.count, by simp [Good, hs]⟩ (keeps_nil (by simp [State.kind, hs]))

theorem sound_resStatusStart {p : Parser} (h : Fine p) (ch : UInt8) :
    (resStatusStart p ch).Sound none := by
  unfold resStatusStart
  split
  · exact .next ⟨h.errno, h.bound, h.count, trivial⟩ (keeps_nil rfl)
  split
  · exact .next ⟨h.errno, h.bound, h.count, trivial⟩ (keeps_nil rfl)
  · exact .next ⟨h.errno, h.bound, h.count, trivial⟩ ⟨_, rfl, .inl rfl⟩

theorem sound_resStatus {p : Parser} (h : Fine p) (hs : p.state = .resStatus) (ch : UInt8) :
    (resStatus p ch).Sound (some .status) := by
  unfold resStatus
  split
  · exact .next ⟨h.errno, h.bound, h.count, trivial⟩ ⟨_, rfl, .inl rfl⟩
  split
  · exact .next ⟨h.errno, h.bound, h.count, trivial⟩ ⟨_, rfl, .inl rfl⟩
  · exact .next ⟨h.errno, h.bound, h.count, by simp [Good, hs]⟩ ⟨_, rfl, .inl (by rw [hs]; rfl)⟩

/-! ## Methods and URLs -/

theorem length_str_lt (m : Method) : m.str.length < 12 := by
  cases m <;> decide

theorem charAt_isSome {s : Bytes} {i : Nat} (h : i ≤ s.length) : ∃ c, charAt s i = some c := by
  unfold charAt
  have hi : i < (s ++ [0]).length := by
    rw [List.length_append, List.length_singleton]
    omega
  exact ⟨_, List.getElem?_eq_getElem hi⟩

theorem lt_length_of_charAt {s : Bytes} {i : Nat} {c : UInt8} (h : charAt s i = some c)
    (hc : c ≠ 0) : i < s.length := by
  obtain ⟨hi, heq⟩ := List.getElem?_eq_some_iff.mp h
  by_contra hlt
  have hlen : i = s.length := by
    simp only [List.length_append, List.length_singleton] at hi
    omega
  subst hlen
  exact hc (by simpa using heq.symm)

theorem switchMethod_length {m m' : Method} {i : Nat} {ch : UInt8}
    (h : switchMethod m i ch = some m') : i + 1 ≤ m'.str.length := by
  unfold switchMethod at h
  repeat' split at h
  all_goals first
    | (cases h; decide)
    | cases h

theorem nextIndex_eq {p : Parser} (h : p.index < 127) : nextIndex p = p.index + 1 :=
  Nat.mod_eq_of_lt (by omega)

theorem sound_reqMethod {p : Parser} (h : Live 1 p) (hs : p.state = .reqMethod) (ch : UInt8) :
    (reqMethod p ch).Sound none := by
  have hlen : p.index ≤ p.method.str.length := by simpa [Good, hs] using h.good
  have hlt := length_str_lt p.method
  have hi : nextIndex p = p.index + 1 := nextIndex_eq (by omega)
  have stays : ∀ m : Method, p.index + 1 ≤ m.str.length →
      (Step.next { p with method := m, index := nextIndex p } []).Sound none := by
    intro m hm
    refine .next ⟨h.errno, h.bound, h.count, ?_⟩ (keeps_nil (by simp [State.kind, hs]))
    simpa [Good, hs, hi] using hm
  obtain ⟨c, hc⟩ := charAt_isSome hlen
  unfold reqMethod
  rw [hc]
  dsimp only
  split
  · exact .fail (by decide)
  split
  · exact .next ⟨h.errno, h.bound, h.count, trivial⟩ (keeps_nil rfl)
  split
  · rename_i h0 _ heq
    exact stays p.method (lt_length_of_charAt hc (heq ▸ h0))
  split
  · split
    · exact .fail (by decide)
    · rename_i m' hm'
      exact stays m' (switchMethod_length hm')
  split
  · rename_i hm
    refine stays .msearch ?_
    rw [hm.2.1]
    decide
  · exact .fail (by decide)

theorem parseUrlChar_cases (s : State) (ch : UInt8) :
    parseUrlChar s ch = .dead ∨ (parseUrlChar s ch).inUrl = true := by
  unfold parseUrlChar serverChar
  repeat' split
  all_goals first
    | exact .inl rfl
    | exact .inr rfl

theorem kind_of_inUrl {s : State} (h : s.inUrl = true) : s.kind = some .url := by
  cases s <;> first | rfl | cases h

theorem good_of_inUrl {p : Parser} (h : p.state.inUrl = true) (n : Nat) : Good n p := by
  unfold Good
  split <;> first | trivial | (rename_i hs; rw [hs] at h; cases h)

theorem sound_urlChar {p : Parser} (h : Fine p) (s : State) (ch : UInt8) :
    (urlChar p s ch).Sound (some .url) := by
  unfold urlChar
  dsimp only
  split
  · exact .fail (by decide)
  · rename_i hdead
    have hin := (parseUrlChar_cases s ch).resolve_left hdead
    refine .next ⟨h.errno, h.bound, h.count, good_of_inUrl hin 0⟩ ⟨_, rfl, .inl ?_⟩
    exact (kind_of_inUrl hin).symm

theorem sound_reqSpacesBeforeUrl {p : Parser} (h : Fine p) (hs : p.state = .reqSpacesBeforeUrl)
    (ch : UInt8) : (reqSpacesBeforeUrl p ch).Sound none := by
  unfold reqSpacesBeforeUrl
  split
  · exact .next ⟨h.errno, h.bound, h.count, by simp [Good, hs]⟩ (keeps_nil (by rw [hs]; rfl))
  · exact (sound_urlChar h _ ch).after fun _ => rfl

theorem sound_reqSchema {p : Parser} (h : Fine p) (ch : UInt8) :
    (reqSchema p ch).Sound (some .url) := by
  unfold reqSchema
  split
  · exact .fail (by decide)
  · exact sound_urlChar h p.state ch

theorem sound_reqUrl {p : Parser} (h : Fine p) (ch : UInt8) :
    (reqUrl p ch).Sound (some .url) := by
  unfold reqUrl
  split
  · exact .next ⟨h.errno, h.bound, h.count, trivial⟩ ⟨_, rfl, .inl rfl⟩
  split
  · split
    · exact .next ⟨h.errno, h.bound, h.count, trivial⟩ ⟨_, rfl, .inl rfl⟩
    · exact .next ⟨h.errno, h.bound, h.count, trivial⟩ ⟨_, rfl, .inl rfl⟩
  · exact sound_urlChar h p.state ch

theorem sound_reqHttpStart {p : Parser} (h : Fine p) (hs : p.state = .reqHttpStart)
    (ch : UInt8) : (reqHttpStart p ch).Sound none := by
  unfold reqHttpStart
  split
  · exact .next ⟨h.errno, h.bound, h.count, trivial⟩ (keeps_nil rfl)
  split
  · exact .next ⟨h.errno, h.bound, h.count, by simp [Good, hs]⟩ (keeps_nil (by rw [hs]; rfl))
  · exact .fail (by decide)

/-! ## Chunks -/

theorem unhex_le {c : UInt8} {v : Nat} (h : unhex c = some v) : v ≤ 15 := by
  have hsub : ∀ {a b : UInt8} {n : Nat}, a ≤ c → c ≤ b → b.toNat - a.toNat = n →
      (c - a).toNat ≤ n := by
    intro a b n ha hb hn
    rw [UInt8.le_iff_toNat_le] at ha hb
    rw [UInt8.toNat_sub_of_le _ _ (UInt8.le_iff_toNat_le.mpr ha)]
    omega
  unfold unhex at h
  split at h
  · rename_i hnum
    simp only [isNum, decide_eq_true_eq] at hnum
    cases h
    exact (hsub hnum.1 hnum.2 rfl).trans (by decide)
  split at h
  · rename_i hhex
    have := hsub hhex.1 hhex.2 rfl
    cases h
    rw [UInt8.toNat_add]
    exact (Nat.mod_le _ _).trans (Nat.add_le_add_right this 10)
  split at h
  · rename_i hhex
    have := hsub hhex.1 hhex.2 rfl
    cases h
    rw [UInt8.toNat_add]
    exact (Nat.mod_le _ _).trans (Nat.add_le_add_right this 10)
  split at h
  · cases h
    decide
  · cases h

theorem sound_chunkSizeStart {p : Parser} (h : Live 1 p) (hs : p.state = .chunkSizeStart)
    (ch : UInt8) : (chunkSizeStart p ch).Sound none := by
  obtain ⟨hchunked, hnread⟩ : p.flags.chunked = true ∧ p.nread = 1 := by
    simpa [Good, hs] using h.good
  unfold chunkSizeStart
  rw [if_neg (not_not.mpr ⟨hnread, hchunked⟩)]
  split
  · exact .fail (by decide)
  · rename_i v hv
    have hv := unhex_le hv
    have hmax : v < ULLONG_MAX := lt_of_le_of_lt hv (by decide)
    exact .next ⟨h.errno, hmax.le, h.count, hchunked, hmax⟩ (keeps_nil rfl)

theorem sound_chunkSize {p : Parser} (h : Live 1 p) (hs : p.state = .chunkSize) (ch : UInt8) :
    (chunkSize p ch).Sound none := by
  obtain ⟨hchunked, hcl⟩ : p.flags.chunked = true ∧ p.contentLength < ULLONG_MAX := by
    simpa [Good, hs] using h.good
  unfold chunkSize
  rw [if_neg (not_not.mpr hchunked)]
  split
  · exact .next ⟨h.errno, h.bound, h.count, hchunked, hcl⟩ (keeps_nil rfl)
  split
  · split
    · exact .next ⟨h.errno, h.bound, h.count, hchunked, hcl⟩ (keeps_nil rfl)
    · exact .fail (by decide)
  · rename_i v hv
    have hv := unhex_le hv
    split
    · exact .fail (by decide)
    · rename_i hsmall
      have hmax : p.contentLength * 16 + v < ULLONG_MAX := by
        rw [ULLONG_MAX] at hsmall ⊢
        omega
      refine .next ⟨h.errno, hmax.le, h.count, ?_⟩ (keeps_nil (by simp [State.kind, hs]))
      simpa [Good, hs] using ⟨hchunked, hmax⟩

theorem sound_chunkParameters {p : Parser} (h : Live 1 p) (hs : p.state = .chunkParameters)
    (ch : UInt8) : (chunkParameters p ch).Sound none := by
  obtain ⟨hchunked, hcl⟩ : p.flags.chunked = true ∧ p.contentLength < ULLONG_MAX := by
    simpa [Good, hs] using h.good
  unfold chunkParameters
  rw [if_neg (not_not.mpr hchunked)]
  split
  · exact .next ⟨h.errno, h.bound, h.count, hchunked, hcl⟩ (keeps_nil rfl)
  · exact .next ⟨h.errno, h.bound, h.count, by simpa [Good, hs] using ⟨hchunked, hcl⟩⟩
      (keeps_nil (by rw [hs]; rfl))

theorem sound_chunkSizeAlmostDone {p : Parser} (h : Live 1 p)
    (hs : p.state = .chunkSizeAlmostDone) (ch : UInt8) :
    (chunkSizeAlmostDone p ch).Sound none := by
  obtain ⟨hchunked, hcl⟩ : p.flags.chunked = true ∧ p.contentLength < ULLONG_MAX := by
    simpa [Good, hs] using h.good
  unfold chunkSizeAlmostDone
  dsimp only
  rw [if_neg (not_not.mpr hchunked)]
  split
  · exact .fail (by decide)
  split
  · exact .next ⟨h.errno, h.bound, Nat.zero_le _, trivial⟩ ⟨none, rfl, .inl rfl⟩
  · rename_i h0
    exact .next ⟨h.errno, h.bound, Nat.zero_le _, hchunked, Nat.pos_of_ne_zero h0, hcl⟩
      ⟨none, rfl, .inr ⟨rfl, rfl⟩⟩

theorem sound_chunkDataAlmostDone {p : Parser} (h : Live 1 p)
    (hs : p.state = .chunkDataAlmostDone) (ch : UInt8) :
    (chunkDataAlmostDone p ch).Sound (some .body) := by
  have hgood : p.flags.chunked = true ∧ p.contentLength = 0 := by
    simpa [Good, hs] using h.good
  unfold chunkDataAlmostDone
  rw [if_neg (not_not.mpr hgood)]
  split
  · exact .fail (by decide)
  · exact .next ⟨h.errno, h.bound, h.count, hgood.1⟩ ⟨none, rfl, .inl rfl⟩

theorem sound_chunkDataDone {p : Parser} (h : Live 1 p) (hs : p.state = .chunkDataDone)
    (ch : UInt8) : (chunkDataDone p ch).Sound none := by
  have hchunked : p.flags.chunked = true := by simpa [Good, hs] using h.good
  unfold chunkDataDone
  rw [if_neg (not_not.mpr hchunked)]
  split
  · exact .fail (by decide)
  · exact .next ⟨h.errno, h.bound, Nat.zero_le _, hchunked, rfl⟩ ⟨none, rfl, .inl rfl⟩

theorem sound_closed {p : Parser} (h : Fine p) (hs : p.state = .dead) (ch : UInt8) :
    (closed p ch).Sound none := by
  unfold closed
  split
  · exact .next ⟨h.errno, h.bound, h.count, by simp [Good, hs]⟩ (keeps_nil (by rw [hs]; rfl))
  · exact .fail (by decide)

/-! ## One byte -/

/-- The states that read several bytes. -/
def State.readsMany : State → Bool
  | .headerField | .headerValue | .bodyIdentity | .bodyIdentityEof | .chunkData => true
  | _ => false

theorem sound_handle {p : Parser} (h : Live 1 p) (hmany : p.state.readsMany = false)
    (ch : UInt8) : (handle p ch).Sound p.state.kind := by
  unfold handle
  cases hs : p.state with
  | dead => exact sound_closed h.fine hs ch
  | startReqOrRes => exact sound_startReqOrRes h.fine hs ch
  | resOrRespH => exact sound_resOrRespH h.fine ch
  | startRes => exact sound_startRes h.fine hs ch
  | resH | resHT | resHTT | resHTTP | resLineAlmostDone | reqHttpH | reqHttpHT | reqHttpHTT
  | reqHttpHTTP | reqLineAlmostDone | headerValueDiscardWsAlmostDone | headerAlmostDone =>
    exact sound_expect h.fine (by trivial) (by rfl) (by decide) ch
  | resFirstHttpMajor | reqFirstHttpMajor =>
    exact sound_firstHttpMajor h.fine (fun _ => by trivial) (by rfl) ch
  | resHttpMajor => exact sound_httpMajor h.fine (.inl hs) (by trivial) (by rfl) ch
  | reqHttpMajor => exact sound_httpMajor h.fine (.inr hs) (by trivial) (by rfl) ch
  | resFirstHttpMinor | reqFirstHttpMinor =>
    exact sound_firstHttpMinor h.fine (fun _ => by trivial) (by rfl) ch
  | resHttpMinor => exact sound_resHttpMinor h.fine hs ch
  | reqHttpMinor => exact sound_reqHttpMinor h.fine hs ch
  | resFirstStatusCode => exact sound_resFirstStatusCode h.fine hs ch
  | resStatusCode => exact sound_resStatusCode h.fine hs ch
  | resStatusStart => exact sound_resStatusStart h.fine ch
  | resStatus => exact sound_resStatus h.fine hs ch
  | startReq => exact sound_startReq h.fine hs ch
  | reqMethod => exact sound_reqMethod h hs ch
  | reqSpacesBeforeUrl => exact sound_reqSpacesBeforeUrl h.fine hs ch
  | reqSchema | reqSchemaSlash | reqSchemaSlashSlash | reqServerStart =>
    exact sound_reqSchema h.fine ch
  | reqServer | reqServerWithAt | reqPath | reqQueryStringStart | reqQueryString
  | reqFragmentStart | reqFragment => exact sound_reqUrl h.fine ch
  | reqHttpStart => exact sound_reqHttpStart h.fine hs ch
  | headerFieldStart => exact sound_headerFieldStart h.fine ch
  | headerValueDiscardWs => exact sound_headerValueDiscardWs h hs ch
  | headerValueDiscardLws => exact sound_headerValueDiscardLws h.fine ch
  | headerValueStart => exact sound_headerValueStart h.fine ch
  | headerValueLws => exact sound_headerValueLws h.fine ch
  | chunkSizeStart => exact sound_chunkSizeStart h hs ch
  | chunkSize => exact sound_chunkSize h hs ch
  | chunkParameters => exact sound_chunkParameters h hs ch
  | chunkSizeAlmostDone => exact sound_chunkSizeAlmostDone h hs ch
  | headersAlmostDone => exact sound_headersAlmostDone h.fine ch
  | headersDone => exact sound_headersDone h.fine ch
  | chunkDataAlmostDone => exact sound_chunkDataAlmostDone h hs ch
  | chunkDataDone => exact sound_chunkDataDone h hs ch
  | messageDone => exact sound_messageDone h.fine
  | headerField | headerValue | bodyIdentity | bodyIdentityEof | chunkData =>
    rw [hs] at hmany
    cases hmany

end Third
end CoSocket
