import CoSocket.Third.Asserts

/-!
# Third.Counts

`nread` counts the bytes of a header, and it counts one byte more for each buffer that ends inside a
header name or value. Two parsers that differ in `nread` only do the same, up to the error for a
header that is too long: the one that has counted less does not fail before the other
(`fewer_iterate`).
-/

namespace CoSocket
namespace Third

open Base Pieces

/-- The same parser, with no more bytes counted. -/
def Fewer (p q : Parser) : Prop := ∃ n ≤ q.nread, p = { q with nread := n }

theorem Fewer.refl (p : Parser) : Fewer p p := ⟨p.nread, Nat.le_refl _, rfl⟩

theorem Fewer.state {p q : Parser} (h : Fewer p q) : p.state = q.state := by
  obtain ⟨n, -, rfl⟩ := h
  rfl

theorem Fewer.errno {p q : Parser} (h : Fewer p q) : p.httpErrno = q.httpErrno := by
  obtain ⟨n, -, rfl⟩ := h
  rfl

theorem Fewer.nread_le {p q : Parser} (h : Fewer p q) : p.nread ≤ q.nread := by
  obtain ⟨n, hn, rfl⟩ := h
  exact hn

structure Step.Fewer (s t : Step) : Prop where
  acts : s.acts = t.acts
  outcome : s.outcome = t.outcome
  parser : Third.Fewer s.parser t.parser

theorem Step.Fewer.next {p q : Parser} (h : Third.Fewer p q) (acts : List Action) :
    (Step.next p acts).Fewer (.next q acts) := ⟨rfl, rfl, h⟩

theorem Step.Fewer.after {s t : Step} (h : s.Fewer t) (acts : List Action) :
    (s.after acts).Fewer (t.after acts) :=
  ⟨congrArg (acts ++ ·) h.acts, h.outcome, h.parser⟩

/-! ## One byte -/

section Handlers

variable {p q : Parser} (h : Fewer p q) (ch : UInt8)

include h

theorem fewer_headersDone : (headersDone p ch).Fewer (headersDone q ch) := by
  obtain ⟨n, hn, rfl⟩ := h
  unfold headersDone
  dsimp only
  repeat' split
  all_goals first
    | exact ⟨rfl, rfl, n, hn, rfl⟩
    | exact ⟨rfl, rfl, 0, Nat.le_refl _, rfl⟩

theorem fewer_messageDone : (messageDone p).Fewer (messageDone q) := by
  obtain ⟨n, hn, rfl⟩ := h
  exact ⟨rfl, rfl, n, hn, rfl⟩

theorem fewer_headersAlmostDone : (headersAlmostDone p ch).Fewer (headersAlmostDone q ch) := by
  obtain ⟨n, hn, rfl⟩ := h
  unfold headersAlmostDone
  dsimp only
  split
  · exact ⟨rfl, rfl, n, hn, rfl⟩
  split
  · exact (fewer_messageDone ⟨n, hn, rfl⟩).after _
  split
  · exact ⟨rfl, rfl, n, hn, rfl⟩
  · refine (fewer_headersDone ?_ ch).after _
    exact ⟨n, hn, rfl⟩

theorem fewer_headerFieldStart : (headerFieldStart p ch).Fewer (headerFieldStart q ch) := by
  obtain ⟨n, hn, rfl⟩ := h
  unfold headerFieldStart
  dsimp only
  split
  · exact ⟨rfl, rfl, n, hn, rfl⟩
  split
  · refine fewer_headersAlmostDone ?_ ch
    exact ⟨n, hn, rfl⟩
  split
  · exact ⟨rfl, rfl, n, hn, rfl⟩
  · exact ⟨rfl, rfl, n, hn, rfl⟩

theorem fewer_headerFlag : Fewer (headerFlag p) (headerFlag q) := by
  obtain ⟨n, hn, rfl⟩ := h
  unfold headerFlag
  dsimp only
  split <;> exact ⟨n, hn, rfl⟩

theorem fewer_headerValueStart : (headerValueStart p ch).Fewer (headerValueStart q ch) := by
  obtain ⟨n, hn, rfl⟩ := h
  unfold headerValueStart
  dsimp only
  repeat' split
  all_goals exact ⟨rfl, rfl, n, hn, rfl⟩

theorem fewer_state (s : State) : Fewer { p with state := s } { q with state := s } := by
  obtain ⟨n, hn, rfl⟩ := h
  exact ⟨n, hn, rfl⟩

theorem fewer_headerValueDiscardWs :
    (headerValueDiscardWs p ch).Fewer (headerValueDiscardWs q ch) := by
  unfold headerValueDiscardWs
  split
  · exact ⟨rfl, rfl, h⟩
  split
  · exact ⟨rfl, rfl, fewer_state h _⟩
  split
  · exact ⟨rfl, rfl, fewer_state h _⟩
  · exact fewer_headerValueStart h ch

theorem fewer_headerValueLws : (headerValueLws p ch).Fewer (headerValueLws q ch) := by
  unfold headerValueLws
  split
  · exact fewer_headerValueStart (fewer_state h _) ch
  · exact fewer_headerFieldStart (fewer_state (fewer_headerFlag h) _) ch

theorem fewer_headerValueDiscardLws :
    (headerValueDiscardLws p ch).Fewer (headerValueDiscardLws q ch) := by
  unfold headerValueDiscardLws
  split
  · exact ⟨rfl, rfl, fewer_state h _⟩
  · exact (fewer_headerFieldStart (fewer_state (fewer_headerFlag h) _) ch).after _

theorem fewer_startReq : (startReq p ch).Fewer (startReq q ch) := by
  obtain ⟨n, hn, rfl⟩ := h
  unfold startReq
  dsimp only [startMessage]
  repeat' split
  all_goals exact ⟨rfl, rfl, n, hn, rfl⟩

theorem fewer_startReqOrRes : (startReqOrRes p ch).Fewer (startReqOrRes q ch) := by
  obtain ⟨n, hn, rfl⟩ := h
  unfold startReqOrRes
  dsimp only [startMessage]
  split
  · exact ⟨rfl, rfl, n, hn, rfl⟩
  split
  · exact ⟨rfl, rfl, n, hn, rfl⟩
  · refine fewer_startReq ?_ ch
    exact ⟨n, hn, rfl⟩

theorem fewer_urlChar (s : State) : (urlChar p s ch).Fewer (urlChar q s ch) := by
  obtain ⟨n, hn, rfl⟩ := h
  unfold urlChar
  dsimp only
  split <;> exact ⟨rfl, rfl, n, hn, rfl⟩

theorem fewer_expect {want : UInt8} {next : State} {e : Errno} :
    (expect want next e p ch).Fewer (expect want next e q ch) := by
  obtain ⟨n, hn, rfl⟩ := h
  unfold expect
  split <;> exact ⟨rfl, rfl, n, hn, rfl⟩

theorem fewer_handle (hs : q.state ≠ .chunkSizeStart) : (handle p ch).Fewer (handle q ch) := by
  unfold handle
  rw [h.state]
  cases hq : q.state with
  | chunkSizeStart => exact absurd hq hs
  | startReqOrRes => exact fewer_startReqOrRes h ch
  | startReq => exact fewer_startReq h ch
  | headerFieldStart => exact fewer_headerFieldStart h ch
  | headerValueDiscardWs => exact fewer_headerValueDiscardWs h ch
  | headerValueDiscardLws => exact fewer_headerValueDiscardLws h ch
  | headerValueStart => exact fewer_headerValueStart h ch
  | headerValueLws => exact fewer_headerValueLws h ch
  | headersAlmostDone => exact fewer_headersAlmostDone h ch
  | headersDone => exact fewer_headersDone h ch
  | messageDone => exact fewer_messageDone h
  | reqSpacesBeforeUrl =>
    have hurl := fun s => (fewer_urlChar h ch s).after [.mark .url]
    unfold reqSpacesBeforeUrl
    obtain ⟨n, hn, rfl⟩ := h
    dsimp only
    split
    · exact ⟨rfl, rfl, n, hn, rfl⟩
    · exact hurl _
  | reqSchema | reqSchemaSlash | reqSchemaSlashSlash | reqServerStart =>
    unfold reqSchema
    rw [h.state]
    obtain ⟨n, hn, rfl⟩ := h
    dsimp only
    split
    · exact ⟨rfl, rfl, n, hn, rfl⟩
    · exact fewer_urlChar ⟨n, hn, rfl⟩ ch _
  | reqServer | reqServerWithAt | reqPath | reqQueryStringStart | reqQueryString
  | reqFragmentStart | reqFragment =>
    unfold reqUrl
    rw [h.state]
    obtain ⟨n, hn, rfl⟩ := h
    dsimp only
    split
    · exact ⟨rfl, rfl, n, hn, rfl⟩
    split
    · exact ⟨rfl, rfl, n, hn, rfl⟩
    · exact fewer_urlChar ⟨n, hn, rfl⟩ ch _
  | chunkSizeAlmostDone =>
    obtain ⟨n, hn, rfl⟩ := h
    unfold chunkSizeAlmostDone
    dsimp only
    repeat' split
    all_goals first
      | exact ⟨rfl, rfl, n, hn, rfl⟩
      | exact ⟨rfl, rfl, 0, Nat.le_refl _, rfl⟩
  | chunkDataDone =>
    obtain ⟨n, hn, rfl⟩ := h
    unfold chunkDataDone
    dsimp only
    repeat' split
    all_goals first
      | exact ⟨rfl, rfl, n, hn, rfl⟩
      | exact ⟨rfl, rfl, 0, Nat.le_refl _, rfl⟩
  | headerField | headerValue | bodyIdentity | bodyIdentityEof | chunkData =>
    exact ⟨rfl, rfl, h⟩
  | _ =>
    -- these use neither `nread` nor the function of another state
    obtain ⟨n, hn, rfl⟩ := h
    dsimp only [closed, resOrRespH, startRes, startMessage, expect, firstHttpMajor, httpMajor,
      firstHttpMinor, nextHttpMinor, resHttpMinor, reqHttpMinor, resFirstStatusCode, resStatusCode,
      resStatusStart, resStatus, reqMethod, reqHttpStart, chunkSize, chunkParameters,
      chunkDataAlmostDone]
    repeat' split
    all_goals exact ⟨rfl, rfl, n, hn, rfl⟩

end Handlers

/-! ## Several bytes -/

theorem headerFieldByte_nread (p : Parser) (n : Nat) (ch : UInt8) :
    headerFieldByte { p with nread := n } ch =
      { headerFieldByte p ch with parser := { (headerFieldByte p ch).parser with nread := n } } := by
  unfold headerFieldByte
  dsimp only [nextIndex]
  repeat' split
  all_goals rfl

theorem headerValueByte_nread (p : Parser) (n : Nat) (ch : UInt8) :
    headerValueByte { p with nread := n } ch =
      { headerValueByte p ch with parser := { (headerValueByte p ch).parser with nread := n } } := by
  unfold headerValueByte
  dsimp only [nextIndex, headerFlag]
  repeat' split
  all_goals rfl

def Scan.setNread (n : Nat) (s : Scan) : Scan := { s with parser := { s.parser with nread := n } }

theorem headerFieldLoop_nread (p : Parser) (n : Nat) (data : Bytes) :
    headerFieldLoop { p with nread := n } data = (headerFieldLoop p data).setNread n := by
  induction data generalizing p with
  | nil => rfl
  | cons ch rest ih =>
    unfold headerFieldLoop
    rw [headerFieldByte_nread]
    obtain ⟨p', acts, outcome⟩ := headerFieldByte p ch
    split
    · rfl
    · cases outcome with
      | next => exact congrArg (Scan.pass ch) (ih p')
      | exit | error | abort => rfl

theorem headerValueLoop_nread (p : Parser) (n : Nat) (data : Bytes) :
    headerValueLoop { p with nread := n } data = (headerValueLoop p data).setNread n := by
  induction data generalizing p with
  | nil => rfl
  | cons ch rest ih =>
    unfold headerValueLoop
    rw [headerValueByte_nread]
    obtain ⟨p', acts, outcome⟩ := headerValueByte p ch
    dsimp only
    split
    · rfl
    split
    · rfl
    split
    · rfl
    · cases outcome with
      | next => exact congrArg (Scan.pass ch) (ih p')
      | exit | error | abort => rfl

theorem nread_headerFieldLoop (p : Parser) (data : Bytes) :
    (headerFieldLoop p data).parser.nread = p.nread :=
  congrArg (fun s => s.parser.nread) (headerFieldLoop_nread p p.nread data)

theorem nread_headerValueLoop (p : Parser) (data : Bytes) :
    (headerValueLoop p data).parser.nread = p.nread :=
  congrArg (fun s => s.parser.nread) (headerValueLoop_nread p p.nread data)

/-! ## One round -/

structure Move.Fewer (mv mv' : Move) : Prop where
  acts : mv.acts = mv'.acts
  outcome : mv.outcome = mv'.outcome
  rest : mv.rest = mv'.rest
  parser : Third.Fewer mv.parser mv'.parser

theorem Step.Fewer.move {s t : Step} (h : s.Fewer t) (ch : UInt8) (rest : Bytes) :
    (s.move ch rest).Fewer (t.move ch rest) := by
  refine ⟨?_, h.outcome, ?_, h.parser⟩
  · exact congrArg (· ++ _) h.acts
  · show (if s.outcome = .next ∨ s.outcome = .exit then rest else ch :: rest) = _
    rw [h.outcome]
    rfl

theorem fewer_counted {p q : Parser} (h : Fewer p q) {n : Nat} (hn : q.nread + n < 2 ^ 32)
    {acts : List Action} {rest : Bytes} {k : Parser → Move}
    (hk : Fewer (countHeaderSize p n) (countHeaderSize q n) →
      (k (countHeaderSize q n)).outcome ≠ .error →
      (k (countHeaderSize p n)).Fewer (k (countHeaderSize q n)))
    (hok : (counted q n acts rest k).outcome ≠ .error) :
    (counted p n acts rest k).Fewer (counted q n acts rest k) := by
  have hle := h.nread_le
  have hcount : Fewer (countHeaderSize p n) (countHeaderSize q n) := by
    obtain ⟨i, hi, rfl⟩ := h
    refine ⟨(i + n) % 2 ^ 32, ?_, rfl⟩
    show (i + n) % 2 ^ 32 ≤ (q.nread + n) % 2 ^ 32
    rw [Nat.mod_eq_of_lt (by omega), Nat.mod_eq_of_lt hn]
    omega
  unfold counted at hok ⊢
  by_cases hover : (countHeaderSize q n).nread > HTTP_MAX_HEADER_SIZE
  · rw [if_pos hover] at hok
    exact absurd rfl hok
  · have := hcount.nread_le
    rw [if_neg hover] at hok
    rw [if_neg hover, if_neg (by omega)]
    exact hk hcount hok

theorem fieldEnd_next {s : Scan} (h : s.outcome = .next) :
    fieldEnd s = counted s.parser s.passed.length [.advance s.passed] s.rest fun p =>
      match s.rest with
      | [] => ⟨p, [.advance s.passed], .next, []⟩
      | ch :: rest =>
        if ch = ascii ':' then
          ⟨{ p with state := .headerValueDiscardWs },
            [.advance s.passed, .data .headerField, .advance [ch]], .next, rest⟩
        else ⟨{ p with httpErrno := .invalidHeaderToken }, [.advance s.passed], .error,
          ch :: rest⟩ := by
  rw [fieldEnd, if_neg (not_not.mpr h)]
  rfl

theorem valueEnd_nil {s : Scan} (h : s.outcome = .next) (hrest : s.rest = []) :
    valueEnd s = counted s.parser s.passed.length [.advance s.passed] [] fun p =>
      ⟨p, [.advance s.passed], .next, []⟩ := by
  rw [valueEnd, if_neg (not_not.mpr h), hrest]

theorem valueEnd_cons {s : Scan} (h : s.outcome = .next) {ch : UInt8} {rest : Bytes}
    (hrest : s.rest = ch :: rest) :
    valueEnd s =
      if ch = CR then
        counted { s.parser with state := .headerAlmostDone } s.passed.length
          [.advance s.passed, .data .headerValue] (ch :: rest) fun p =>
          (Step.next p [.advance s.passed, .data .headerValue]).move ch rest
      else
        counted { s.parser with state := .headerAlmostDone } s.passed.length
          [.advance s.passed] (ch :: rest) fun p =>
          ((expect LF .headerValueLws .lfExpected p ch).after
            [.advance s.passed, .data .headerValue]).move ch rest := by
  rw [valueEnd, if_neg (not_not.mpr h), hrest]
  rfl

section ScanEnd

variable {s : Scan} {n : Nat} (hn : n ≤ s.parser.nread)
  (hlen : s.parser.nread + s.passed.length < 2 ^ 32)

include hn hlen

theorem fewer_fieldEnd (hok : (fieldEnd s).outcome ≠ .error) (hnext : s.outcome = .next) :
    (fieldEnd (s.setNread n)).Fewer (fieldEnd s) := by
  have hsame : (s.setNread n).outcome = .next := hnext
  rw [fieldEnd_next hnext] at hok ⊢
  rw [fieldEnd_next hsame]
  refine fewer_counted ⟨n, hn, rfl⟩ hlen (fun h _ => ?_) hok
  dsimp only [Scan.setNread]
  split
  · exact ⟨rfl, rfl, rfl, h⟩
  split
  · exact ⟨rfl, rfl, rfl, fewer_state h _⟩
  · obtain ⟨i, hi, heq⟩ := h
    exact ⟨rfl, rfl, rfl, i, hi, by rw [heq]⟩

theorem fewer_valueEnd (hok : (valueEnd s).outcome ≠ .error) (hnext : s.outcome = .next) :
    (valueEnd (s.setNread n)).Fewer (valueEnd s) := by
  have hsame : (s.setNread n).outcome = .next := hnext
  cases hrest : s.rest with
  | nil =>
    rw [valueEnd_nil hnext hrest] at hok ⊢
    rw [valueEnd_nil hsame hrest]
    exact fewer_counted ⟨n, hn, rfl⟩ hlen (fun h _ => ⟨rfl, rfl, rfl, h⟩) hok
  | cons ch rest =>
    rw [valueEnd_cons hnext hrest] at hok ⊢
    rw [valueEnd_cons hsame hrest]
    by_cases hcr : ch = CR
    · simp only [if_pos hcr] at hok ⊢
      refine fewer_counted ?_ ?_ (fun h _ => ?_) hok
      · exact ⟨n, hn, rfl⟩
      · exact hlen
      · exact (Step.Fewer.next h _).move ch rest
    · simp only [if_neg hcr] at hok ⊢
      refine fewer_counted ?_ ?_ (fun h _ => ?_) hok
      · exact ⟨n, hn, rfl⟩
      · exact hlen
      · exact Step.Fewer.move ((fewer_expect h ch).after _) ch rest

end ScanEnd

theorem fewer_headerField {p q : Parser} (h : Fewer p q)
    (hin : Inside .headerField HeaderStates.inField q) {data : Bytes}
    (hlen : q.nread + data.length < 2 ^ 32) (hok : (headerField q data).outcome ≠ .error) :
    (headerField p data).Fewer (headerField q data) := by
  obtain ⟨n, hn, rfl⟩ := h
  have hscan := sound_headerFieldLoop hin data
  have hpassed := congrArg List.length hscan.split
  rw [← nread_headerFieldLoop q data] at hn hlen
  rw [List.length_append] at hpassed
  rw [headerField, headerFieldLoop_nread]
  refine fewer_fieldEnd hn (by omega) hok (hscan.next.resolve_right fun herror => ?_)
  rw [headerField, fieldEnd, if_pos (by simp [herror])] at hok
  exact hok herror

theorem fewer_headerValue {p q : Parser} (h : Fewer p q)
    (hin : Inside .headerValue HeaderStates.inValue q) {data : Bytes}
    (hlen : q.nread + data.length < 2 ^ 32) (hok : (headerValue q data).outcome ≠ .error) :
    (headerValue p data).Fewer (headerValue q data) := by
  obtain ⟨n, hn, rfl⟩ := h
  have hscan := sound_headerValueLoop hin data
  have hpassed := congrArg List.length hscan.split
  rw [← nread_headerValueLoop q data] at hn hlen
  rw [List.length_append] at hpassed
  rw [headerValue, headerValueLoop_nread]
  refine fewer_valueEnd hn (by omega) hok (hscan.next.resolve_right fun herror => ?_)
  rw [headerValue, valueEnd, if_pos (by simp [herror])] at hok
  exact hok herror

theorem fewer_bodyIdentity {p q : Parser} (h : Fewer p q) (data : Bytes) :
    (bodyIdentity p data).Fewer (bodyIdentity q data) := by
  obtain ⟨n, hn, rfl⟩ := h
  unfold bodyIdentity
  dsimp only
  split
  · exact ⟨rfl, rfl, rfl, n, hn, rfl⟩
  split
  · split
    · exact ⟨rfl, rfl, rfl, n, hn, rfl⟩
    · refine Step.Fewer.move (Step.Fewer.after (fewer_messageDone ?_) _) _ _
      exact ⟨n, hn, rfl⟩
  · exact ⟨rfl, rfl, rfl, n, hn, rfl⟩

theorem fewer_chunkData {p q : Parser} (h : Fewer p q) (data : Bytes) :
    (chunkData p data).Fewer (chunkData q data) := by
  obtain ⟨n, hn, rfl⟩ := h
  unfold chunkData
  dsimp only
  split
  · exact ⟨rfl, rfl, rfl, n, hn, rfl⟩
  · split <;> exact ⟨rfl, rfl, rfl, n, hn, rfl⟩

theorem dispatch_one {p : Parser} (hmany : p.state.readsMany = false) (ch : UInt8) (rest : Bytes) :
    dispatch p ch rest = (handle p ch).move ch rest := by
  unfold dispatch
  split <;> simp_all [State.readsMany]

theorem fewer_dispatch {p q : Parser} (h : Fewer p q) (hq : Live 1 q) (hs : q.state ≠ .chunkSizeStart)
    {ch : UInt8} (hok : (dispatch q ch []).outcome ≠ .error) :
    (dispatch p ch []).Fewer (dispatch q ch []) := by
  have hcount := hq.count
  rw [HTTP_MAX_HEADER_SIZE] at hcount
  by_cases hmany : q.state.readsMany = true
  · unfold dispatch at hok ⊢
    rw [h.state]
    cases hstate : q.state with
    | headerField =>
      rw [hstate] at hok
      refine fewer_headerField h ⟨hq.fine, hstate, by simpa [Good, hstate] using hq.good⟩ ?_ hok
      simp only [List.length_singleton]
      omega
    | headerValue =>
      rw [hstate] at hok
      refine fewer_headerValue h ⟨hq.fine, hstate, by simpa [Good, hstate] using hq.good⟩ ?_ hok
      simp only [List.length_singleton]
      omega
    | bodyIdentity => exact fewer_bodyIdentity h [ch]
    | bodyIdentityEof => exact ⟨rfl, rfl, rfl, h⟩
    | chunkData => exact fewer_chunkData h [ch]
    | _ =>
      rw [hstate] at hmany
      cases hmany
  · rw [Bool.not_eq_true] at hmany
    rw [dispatch_one hmany, dispatch_one (h.state ▸ hmany)]
    exact (fewer_handle h ch hs).move ch []

theorem fewer_iterate {p q : Parser} (h : Fewer p q) (hq : Live 0 q) {ch : UInt8}
    (hok : (iterate q ch []).outcome ≠ .error) : (iterate p ch []).Fewer (iterate q ch []) := by
  by_cases hstart : q.state = .chunkSizeStart
  · -- here both have counted nothing
    have hgood : q.flags.chunked = true ∧ q.nread = 0 := by simpa [Good, hstart] using hq.good
    obtain ⟨n, hn, rfl⟩ := h
    obtain rfl : n = q.nread := by omega
    exact ⟨rfl, rfl, rfl, .refl _⟩
  have hcount := hq.count
  rw [HTTP_MAX_HEADER_SIZE] at hcount
  unfold iterate at hok ⊢
  rw [h.state]
  by_cases hp : q.state.parsingHeader = true
  · rw [if_pos hp] at hok ⊢
    rw [if_pos hp]
    refine fewer_counted h (by omega) (fun h hok' => ?_) hok
    refine fewer_dispatch h (hq.counted ?_) hstart hok'
    by_contra hover
    rw [counted, if_pos (Nat.lt_of_not_le hover)] at hok
    exact hok rfl
  · rw [if_neg hp] at hok ⊢
    rw [if_neg hp]
    rw [Bool.not_eq_true] at hp
    exact fewer_dispatch h (hq.one hp) hstart hok

end Third
end CoSocket
