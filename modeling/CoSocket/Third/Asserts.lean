import CoSocket.Third.States

/-!
# Third.Asserts

No assertion of `http_parser_execute` fails, and no string constant is read behind its end, whatever
bytes the parser gets and however they come: `Move.Sound` is what one round of the loop keeps,
`sound_loop` what the loop does, and `calls_sound` is about any number of calls.
-/

namespace CoSocket
namespace Third

open Base Pieces

/-! ## Several bytes -/

/-- The parser inside a header name or value. -/
structure Inside (st : State) (inside : HeaderStates → Bool) (p : Parser) : Prop
    extends Fine p where
  state : p.state = st
  header : inside p.headerState = true

structure Step.Inner (st : State) (inside : HeaderStates → Bool) (s : Step) : Prop where
  next : s.outcome = .next ∨ s.outcome = .error
  failed : s.outcome = .error → s.parser.httpErrno ≠ .ok
  stays : s.outcome = .next → Inside st inside s.parser

theorem Step.Inner.to {st : State} {inside : HeaderStates → Bool} {p : Parser}
    (h : Inside st inside p) : (Step.next p []).Inner st inside :=
  ⟨.inl rfl, by simp [Step.next], fun _ => h⟩

theorem Step.Inner.fail {st : State} {inside : HeaderStates → Bool} {p : Parser} {e : Errno}
    (he : e ≠ .ok) : (Step.fail p e).Inner st inside :=
  ⟨.inr rfl, fun _ => he, by simp [Step.fail]⟩

theorem matchWord_cases (word : Bytes) (i : Nat) (c : UInt8) (now found lost : HeaderStates) :
    matchWord word i c now found lost = now ∨ matchWord word i c now found lost = found ∨
      matchWord word i c now found lost = lost := by
  unfold matchWord
  split
  · exact .inr (.inr rfl)
  split
  · exact .inr (.inl rfl)
  · exact .inl rfl

theorem inside_matchWord {inside : HeaderStates → Bool} {word : Bytes} {i : Nat} {c : UInt8}
    {now found lost : HeaderStates} (hn : inside now = true) (hf : inside found = true)
    (hl : inside lost = true) : inside (matchWord word i c now found lost) = true := by
  rcases matchWord_cases word i c now found lost with h | h | h
  · rw [h, hn]
  · rw [h, hf]
  · rw [h, hl]

theorem inner_headerFieldByte {p : Parser} (h : Inside .headerField HeaderStates.inField p)
    (ch : UInt8) : (headerFieldByte p ch).Inner .headerField HeaderStates.inField := by
  unfold headerFieldByte
  dsimp only
  split
  · exact .to h
  · refine .to ⟨⟨h.errno, h.bound, h.count⟩, h.state, ?_⟩
    split <;> rfl
  · refine .to ⟨⟨h.errno, h.bound, h.count⟩, h.state, ?_⟩
    split <;> rfl
  · refine .to ⟨⟨h.errno, h.bound, h.count⟩, h.state, ?_⟩
    repeat' split
    all_goals rfl
  · exact .to ⟨⟨h.errno, h.bound, h.count⟩, h.state, inside_matchWord rfl rfl rfl⟩
  · exact .to ⟨⟨h.errno, h.bound, h.count⟩, h.state, inside_matchWord rfl rfl rfl⟩
  · split
    · split
      · exact .fail (by decide)
      · exact .to ⟨⟨h.errno, h.bound, h.count⟩, h.state, inside_matchWord rfl rfl rfl⟩
    · exact .to ⟨⟨h.errno, h.bound, h.count⟩, h.state, inside_matchWord rfl rfl rfl⟩
  · exact .to ⟨⟨h.errno, h.bound, h.count⟩, h.state, inside_matchWord rfl rfl rfl⟩
  · exact .to ⟨⟨h.errno, h.bound, h.count⟩, h.state, inside_matchWord rfl rfl rfl⟩
  · split
    · exact .to ⟨⟨h.errno, h.bound, h.count⟩, h.state, rfl⟩
    · exact .to h
  · split
    · exact .to ⟨⟨h.errno, h.bound, h.count⟩, h.state, rfl⟩
    · exact .to h
  · split
    · exact .to ⟨⟨h.errno, h.bound, h.count⟩, h.state, rfl⟩
    · exact .to h
  · split
    · exact .to ⟨⟨h.errno, h.bound, h.count⟩, h.state, rfl⟩
    · exact .to h
  · have := h.header
    cases hh : p.headerState <;> simp_all [HeaderStates.inField]

theorem fine_contentLength {p : Parser} (h : Fine p) {ch : UInt8} (hnum : isNum ch = true)
    (hsmall : ¬(ULLONG_MAX - 10) / 10 < p.contentLength) :
    Fine { p with contentLength := p.contentLength * 10 + digit ch } := by
  have hdigit : digit ch ≤ 9 := by
    have hbounds : ascii '0' ≤ ch ∧ ch ≤ ascii '9' := by simpa [isNum] using hnum
    have h9 := UInt8.le_iff_toNat_le.mp hbounds.2
    rw [digit, UInt8.toNat_sub_of_le _ _ hbounds.1]
    exact (Nat.sub_le_sub_right h9 _).trans (by decide)
  refine ⟨h.errno, ?_, h.count⟩
  show p.contentLength * 10 + digit ch ≤ ULLONG_MAX
  rw [ULLONG_MAX] at hsmall ⊢
  omega

theorem inner_headerValueByte {p : Parser} (h : Inside .headerValue HeaderStates.inValue p)
    (ch : UInt8) : (headerValueByte p ch).Inner .headerValue HeaderStates.inValue := by
  have hflag := fine_headerFlag h.toFine
  have hstate : (headerFlag p).state = .headerValue := by
    rw [← h.state]
    unfold headerFlag
    split <;> rfl
  have hcomma : (if ch = ascii ',' then Step.next { headerFlag p with
      headerState := .matchingConnectionTokenStart, index := 0 } []
      else if ch ≠ ascii ' ' then Step.next { p with headerState := .matchingConnectionToken } []
      else Step.next p []).Inner .headerValue HeaderStates.inValue := by
    split
    · exact .to ⟨⟨hflag.errno, hflag.bound, hflag.count⟩, hstate, rfl⟩
    split
    · exact .to ⟨⟨h.errno, h.bound, h.count⟩, h.state, rfl⟩
    · exact .to h
  unfold headerValueByte
  dsimp only
  split
  · rename_i hh
    exact absurd h.header (by rw [hh]; decide)
  · rename_i hh
    exact absurd h.header (by rw [hh]; decide)
  · split
    · exact .to h
    split
    · exact .fail (by decide)
    split
    · exact .fail (by decide)
    · rename_i hnum hsmall
      exact .to ⟨fine_contentLength h.toFine (by simpa using hnum) hsmall, h.state, h.header⟩
  · exact .to ⟨⟨h.errno, h.bound, h.count⟩, h.state, inside_matchWord rfl rfl rfl⟩
  · refine .to ⟨⟨h.errno, h.bound, h.count⟩, h.state, ?_⟩
    repeat' split
    all_goals rfl
  · exact .to ⟨⟨h.errno, h.bound, h.count⟩, h.state, inside_matchWord rfl rfl rfl⟩
  · exact .to ⟨⟨h.errno, h.bound, h.count⟩, h.state, inside_matchWord rfl rfl rfl⟩
  · exact .to ⟨⟨h.errno, h.bound, h.count⟩, h.state, inside_matchWord rfl rfl rfl⟩
  · split
    · exact .to ⟨⟨h.errno, h.bound, h.count⟩, h.state, rfl⟩
    · exact .to h
  · split
    · exact .to ⟨⟨h.errno, h.bound, h.count⟩, h.state, rfl⟩
    · exact .to h
  · exact hcomma
  · exact hcomma
  · exact hcomma
  · exact .to ⟨⟨h.errno, h.bound, h.count⟩, rfl, rfl⟩

structure Scan.Sound (st : State) (inside : HeaderStates → Bool) (data : Bytes) (s : Scan) :
    Prop where
  next : s.outcome = .next ∨ s.outcome = .error
  failed : s.outcome = .error → s.parser.httpErrno ≠ .ok
  stays : s.outcome = .next → Inside st inside s.parser
  split : s.passed ++ s.rest = data

theorem Scan.Sound.pass {st : State} {inside : HeaderStates → Bool} {data : Bytes} {s : Scan}
    (h : s.Sound st inside data) (ch : UInt8) : (s.pass ch).Sound st inside (ch :: data) :=
  ⟨h.next, h.failed, h.stays, congrArg (ch :: ·) h.split⟩

theorem sound_headerFieldLoop {p : Parser} (h : Inside .headerField HeaderStates.inField p)
    (data : Bytes) : (headerFieldLoop p data).Sound .headerField HeaderStates.inField data := by
  induction data generalizing p with
  | nil => exact ⟨.inl rfl, nofun, fun _ => h, rfl⟩
  | cons ch rest ih =>
    have hbyte := inner_headerFieldByte h ch
    unfold headerFieldLoop
    split
    · exact ⟨.inl rfl, nofun, fun _ => h, rfl⟩
    split
    · rename_i p' _ heq
      rw [heq] at hbyte
      exact (ih (hbyte.stays rfl)).pass ch
    · rename_i hnext heq
      rw [heq] at hbyte
      exact ⟨hbyte.next, hbyte.failed, hbyte.stays, rfl⟩

theorem lineEnd_append (data : Bytes) : (lineEnd data).1 ++ (lineEnd data).2 = data := by
  unfold lineEnd
  dsimp only
  split
  · have hpre : (data.take HTTP_MAX_HEADER_SIZE).takeWhile (fun c => decide (c ≠ CR ∧ c ≠ LF)) <+:
        data := (List.takeWhile_prefix _).trans (List.take_prefix _ _)
    nth_rewrite 1 [List.prefix_iff_eq_take.mp hpre]
    exact List.take_append_drop _ _
  · exact List.append_nil data

theorem sound_headerValueLoop {p : Parser} (h : Inside .headerValue HeaderStates.inValue p)
    (data : Bytes) : (headerValueLoop p data).Sound .headerValue HeaderStates.inValue data := by
  induction data generalizing p with
  | nil => exact ⟨.inl rfl, nofun, fun _ => h, rfl⟩
  | cons ch rest ih =>
    have hbyte := inner_headerValueByte h ch
    unfold headerValueLoop
    split
    · exact ⟨.inl rfl, nofun, fun _ => h, rfl⟩
    split
    · exact ⟨.inr rfl, fun _ => nofun, nofun, rfl⟩
    split
    · exact ⟨.inl rfl, nofun, fun _ => h, lineEnd_append _⟩
    split
    · rename_i p' _ heq
      rw [heq] at hbyte
      exact (ih (hbyte.stays rfl)).pass ch
    · rename_i hnext heq
      rw [heq] at hbyte
      exact ⟨hbyte.next, hbyte.failed, hbyte.stays, rfl⟩

/-! ## One round of the loop -/

structure Move.Sound (o : Option DataKind) (data : Bytes) (mv : Move) : Prop where
  runs : mv.outcome ≠ .abort
  failed : mv.outcome = .error → mv.parser.httpErrno ≠ .ok
  live : mv.outcome ≠ .error → Live 0 mv.parser
  keeps : mv.outcome ≠ .error → Keeps o mv.acts mv.parser.state
  suffix : mv.rest <:+ data
  shorter : mv.outcome ≠ .error → mv.rest.length < data.length
  left : mv.outcome = .exit → mv.parser.upgrade = true ∧ mv.parser.state.kind = none

theorem Keeps.advance {o : Option DataKind} {acts : List Action} {s : State} (h : Keeps o acts s)
    (xs : Bytes) : Keeps o (acts ++ [.advance xs]) s := by
  obtain ⟨o', ht, hf⟩ := h
  refine ⟨o', ?_, hf⟩
  rw [track_append, ht]
  rfl

theorem Step.Sound.move {o : Option DataKind} {s : Step} (h : s.Sound o) (ch : UInt8)
    (rest : Bytes) : (s.move ch rest).Sound o (ch :: rest) where
  runs := h.runs
  failed := h.failed
  live := h.live
  keeps hout := (h.keeps hout).advance [ch]
  suffix := by
    unfold Step.move
    dsimp only
    split
    · exact List.suffix_cons ch rest
    · exact List.suffix_refl _
  shorter hout := by
    have hnext : s.outcome = .next ∨ s.outcome = .exit := by
      have hruns := h.runs
      replace hout : s.outcome ≠ .error := hout
      cases ho : s.outcome <;> simp_all
    simp [Step.move, hnext]
  left := h.left

theorem Move.Sound.counted {o : Option DataKind} {data : Bytes} {p : Parser} {n : Nat}
    {acts : List Action} {rest : Bytes} {k : Parser → Move}
    (h : (countHeaderSize p n).nread ≤ HTTP_MAX_HEADER_SIZE →
      (k (countHeaderSize p n)).Sound o data) (hrest : rest <:+ data) :
    (counted p n acts rest k).Sound o data := by
  unfold Third.counted
  split
  · exact ⟨by simp, fun _ => by simp, fun hout => absurd rfl hout, fun hout => absurd rfl hout,
      hrest, fun hout => absurd rfl hout, by simp⟩
  · rename_i hcount
    exact h (Nat.le_of_not_lt hcount)

theorem length_lt_of_cons {passed rest data : Bytes} {ch : UInt8}
    (h : passed ++ ch :: rest = data) : rest.length < data.length := by
  rw [← h]
  simp only [List.length_append, List.length_cons]
  omega

theorem suffix_of_cons {passed rest data : Bytes} {ch : UInt8} (h : passed ++ ch :: rest = data) :
    rest <:+ data := by
  refine ⟨passed ++ [ch], ?_⟩
  rw [← h, List.append_assoc, List.singleton_append]

theorem sound_headerField {p : Parser} (h : Inside .headerField HeaderStates.inField p)
    {data : Bytes} (hdata : data ≠ []) :
    (headerField p data).Sound (some .headerField) data := by
  have hscan := sound_headerFieldLoop h data
  have hsuffix : (headerFieldLoop p data).rest <:+ data := ⟨_, hscan.split⟩
  unfold headerField fieldEnd
  dsimp only
  split
  · rename_i hout
    have herror := hscan.next.resolve_left hout
    refine ⟨by simp [herror], fun _ => hscan.failed herror, ?_, ?_, hsuffix, ?_, by simp [herror]⟩
    all_goals exact fun hne => absurd herror hne
  · rename_i hout
    have hin := hscan.stays (not_not.mp hout)
    refine .counted (fun hcount => ?_) hsuffix
    split
    · refine ⟨by simp, by simp, fun _ => ⟨hin.errno, hin.bound, hcount, ?_⟩,
        fun _ => ⟨_, rfl, .inl ?_⟩, List.nil_suffix, fun _ => List.length_pos_of_ne_nil hdata, by simp⟩
      · simpa [Good, countHeaderSize, hin.state] using hin.header
      · simp [countHeaderSize, hin.state, State.kind]
    · rename_i ch rest hrest
      have hsplit := hscan.split
      rw [hrest] at hsplit
      split
      · exact ⟨by simp, by simp, fun _ => ⟨hin.errno, hin.bound, hcount, trivial⟩,
          fun _ => ⟨_, rfl, .inl rfl⟩, suffix_of_cons hsplit, fun _ => length_lt_of_cons hsplit, by simp⟩
      · rw [hrest] at hsuffix
        exact ⟨by simp, fun _ => by simp, fun hne => absurd rfl hne, fun hne => absurd rfl hne,
          hsuffix, fun hne => absurd rfl hne, by simp⟩

theorem Move.Sound.behind {o : Option DataKind} {passed data data' : Bytes} {mv : Move}
    (h : mv.Sound o data) (hsplit : passed ++ data = data') : mv.Sound o data' where
  runs := h.runs
  failed := h.failed
  live := h.live
  keeps := h.keeps
  suffix := h.suffix.trans ⟨passed, hsplit⟩
  shorter hout := by
    refine (h.shorter hout).trans_le ?_
    rw [← hsplit, List.length_append]
    omega
  left := h.left

theorem sound_headerValue {p : Parser} (h : Inside .headerValue HeaderStates.inValue p)
    {data : Bytes} (hdata : data ≠ []) :
    (headerValue p data).Sound (some .headerValue) data := by
  have hscan := sound_headerValueLoop h data
  have hsuffix : (headerValueLoop p data).rest <:+ data := ⟨_, hscan.split⟩
  unfold headerValue valueEnd
  dsimp only
  split
  · rename_i hout
    have herror := hscan.next.resolve_left hout
    refine ⟨by simp [herror], fun _ => hscan.failed herror, ?_, ?_, hsuffix, ?_, by simp [herror]⟩
    all_goals exact fun hne => absurd herror hne
  · rename_i hout
    have hin := hscan.stays (not_not.mp hout)
    split
    · refine .counted (fun hcount => ?_) List.nil_suffix
      refine ⟨by simp, by simp, fun _ => ⟨hin.errno, hin.bound, hcount, ?_⟩,
        fun _ => ⟨_, rfl, .inl ?_⟩, List.nil_suffix, fun _ => List.length_pos_of_ne_nil hdata, by simp⟩
      · simpa [Good, countHeaderSize, hin.state] using hin.header
      · simp [countHeaderSize, hin.state, State.kind]
    · rename_i ch rest hrest
      have hsplit := hscan.split
      rw [hrest] at hsplit hsuffix
      split
      · refine .counted (fun hcount => .behind (Step.Sound.move ?_ ch rest) hsplit) hsuffix
        exact .next ⟨hin.errno, hin.bound, hcount, trivial⟩ ⟨_, rfl, .inl rfl⟩
      · refine .counted (fun hcount => .behind (Step.Sound.move ?_ ch rest) hsplit) hsuffix
        refine @Step.Sound.after _ none _ _ (sound_expect ?_ (by trivial) rfl (by decide) ch)
          fun _ => rfl
        exact ⟨hin.errno, hin.bound, hcount⟩

theorem drop_toRead {data : Bytes} {n : Nat} (hn : 0 < n) (hle : n ≤ data.length) :
    ∃ ch rest, data.drop (n - 1) = ch :: rest := by
  cases h : data.drop (n - 1) with
  | nil =>
    rw [List.drop_eq_nil_iff] at h
    omega
  | cons ch rest => exact ⟨ch, rest, rfl⟩

theorem sound_bodyIdentity {p : Parser} (h : Live 1 p) (hs : p.state = .bodyIdentity)
    {data : Bytes} (hdata : data ≠ []) : (bodyIdentity p data).Sound (some .body) data := by
  obtain ⟨hpos, hlt⟩ : 0 < p.contentLength ∧ p.contentLength < ULLONG_MAX := by
    simpa [Good, hs] using h.good
  have hlen := List.length_pos_of_ne_nil hdata
  unfold bodyIdentity
  dsimp only
  rw [if_neg (by omega)]
  split
  · obtain ⟨ch, rest, hdrop⟩ : ∃ ch rest,
        data.drop (min p.contentLength data.length - 1) = ch :: rest :=
      drop_toRead (by omega) (by omega)
    rw [hdrop]
    refine Move.Sound.behind (Step.Sound.move ?_ ch rest) (by rw [← hdrop, List.take_append_drop])
    refine (sound_messageDone ?_).after fun _ => rfl
    exact ⟨h.errno, (Nat.sub_le _ _).trans h.bound, h.count⟩
  · refine ⟨by simp, by simp, fun _ => ⟨h.errno, (Nat.sub_le _ _).trans h.bound, h.count, ?_⟩,
      fun _ => ⟨_, rfl, .inl ?_⟩, List.drop_suffix _ _, fun _ => ?_, by simp⟩
    · simp only [Good, hs]
      omega
    · simp [hs, State.kind]
    · rw [List.length_drop]
      omega

theorem sound_chunkData {p : Parser} (h : Live 1 p) (hs : p.state = .chunkData)
    {data : Bytes} (hdata : data ≠ []) : (chunkData p data).Sound (some .body) data := by
  obtain ⟨hchunked, hpos, hlt⟩ :
      p.flags.chunked = true ∧ 0 < p.contentLength ∧ p.contentLength < ULLONG_MAX := by
    simpa [Good, hs] using h.good
  have hlen := List.length_pos_of_ne_nil hdata
  have hbound : p.contentLength - min p.contentLength data.length ≤ ULLONG_MAX :=
    (Nat.sub_le _ _).trans h.bound
  unfold chunkData
  dsimp only
  rw [if_neg (by rw [hchunked]; simp; omega)]
  refine ⟨by simp, by simp, fun _ => ?_, fun _ => ⟨_, rfl, .inl ?_⟩, List.drop_suffix _ _,
    fun _ => ?_, by simp⟩
  · split
    · rename_i h0
      exact ⟨h.errno, hbound, h.count, hchunked, h0⟩
    · rename_i h0
      refine ⟨h.errno, hbound, h.count, ?_⟩
      simp only [Good, hs]
      exact ⟨hchunked, by omega, by omega⟩
  · split
    · rfl
    · simp [hs, State.kind]
  · rw [List.length_drop]
    omega

theorem sound_bodyIdentityEof {p : Parser} (h : Live 1 p) (hs : p.state = .bodyIdentityEof)
    {data : Bytes} (hdata : data ≠ []) : (bodyIdentityEof p data).Sound (some .body) data := by
  unfold bodyIdentityEof
  refine ⟨by simp, by simp, fun _ => ⟨h.errno, h.bound, h.count, ?_⟩, fun _ => ⟨_, rfl, .inl ?_⟩,
    List.nil_suffix, fun _ => List.length_pos_of_ne_nil hdata, by simp⟩
  · simp [Good, hs]
  · simp [hs, State.kind]

theorem sound_dispatch {p : Parser} (h : Live 1 p) (ch : UInt8) (rest : Bytes) :
    (dispatch p ch rest).Sound p.state.kind (ch :: rest) := by
  have hdata : ch :: rest ≠ [] := List.cons_ne_nil _ _
  by_cases hmany : p.state.readsMany = true
  · unfold dispatch
    cases hs : p.state with
    | headerField =>
      exact sound_headerField ⟨h.fine, hs, by simpa [Good, hs] using h.good⟩ hdata
    | headerValue =>
      exact sound_headerValue ⟨h.fine, hs, by simpa [Good, hs] using h.good⟩ hdata
    | bodyIdentity => exact sound_bodyIdentity h hs hdata
    | bodyIdentityEof => exact sound_bodyIdentityEof h hs hdata
    | chunkData => exact sound_chunkData h hs hdata
    | _ =>
      rw [hs] at hmany
      cases hmany
  · rw [Bool.not_eq_true] at hmany
    have hdispatch : dispatch p ch rest = (handle p ch).move ch rest := by
      unfold dispatch
      split <;> simp_all [State.readsMany]
    rw [hdispatch]
    exact (sound_handle h hmany ch).move ch rest

theorem Live.counted {p : Parser} (h : Live 0 p)
    (hcount : (countHeaderSize p 1).nread ≤ HTTP_MAX_HEADER_SIZE) :
    Live 1 (countHeaderSize p 1) := by
  refine ⟨h.errno, h.bound, hcount, ?_⟩
  have hgood := h.good
  unfold Good at hgood ⊢
  cases hs : p.state <;> simp_all [countHeaderSize]

theorem Live.one {p : Parser} (h : Live 0 p) (hp : p.state.parsingHeader = false) : Live 1 p := by
  refine ⟨h.errno, h.bound, h.count, ?_⟩
  have hgood := h.good
  unfold Good at hgood ⊢
  cases hs : p.state <;> simp_all [State.parsingHeader]

theorem sound_iterate {p : Parser} (h : Live 0 p) (ch : UInt8) (rest : Bytes) :
    (iterate p ch rest).Sound p.state.kind (ch :: rest) := by
  unfold iterate
  split
  · exact .counted (fun hcount => sound_dispatch (h.counted hcount) ch rest) (List.suffix_refl _)
  · rename_i hp
    exact sound_dispatch (h.one (Bool.not_eq_true _ ▸ hp)) ch rest

/-! ## The loop -/

/-- Every mark but that of a body is set in its states. -/
def Marked (s : State) (m : Marks DataKind UInt8) : Prop :=
  Tracked (fun k => k ≠ .body) s.kind m

theorem Marked.of_fits {o : Option DataKind} {s : State} {m : Marks DataKind UInt8}
    (hf : Fits o s) (h : Tracked (fun k => k ≠ .body) o m) : Marked s m := by
  rcases hf with rfl | ⟨rfl, hbody⟩
  · exact h
  · rw [h.eq_none, Marked, hbody]
    refine ⟨fun k hk => by simp at hk, fun k hk hk' => absurd (Option.some.inj hk').symm hk⟩

theorem Marked.run {s s' : State} {m : Marks DataKind UInt8} {acts : List Action}
    (h : Marked s m) (hk : Keeps s.kind acts s') : Marked s' (m.run acts).1 := by
  obtain ⟨o', ht, hf⟩ := hk
  exact .of_fits hf (Tracked.run h ht)

theorem marked_startMarks (s : State) : Marked s (startMarks s) := by
  refine ⟨fun k hk => ?_, fun k hk hk' => ?_⟩
  · cases k <;> simp only [startMarks] at hk <;> try split at hk
    all_goals first
      | (rename_i hs; rw [hs]; rfl)
      | (rename_i hs; exact kind_of_inUrl hs)
      | simp at hk
  · cases s <;> simp_all [State.kind, startMarks, State.inUrl] <;> subst hk' <;> rfl

structure Run.Sound (data : Bytes) (r : Run) : Prop where
  runs : r.outcome ≠ .abort
  failed : r.outcome = .error → r.parser.httpErrno ≠ .ok
  live : r.outcome ≠ .error → Live 0 r.parser
  marked : r.outcome = .next → Marked r.parser.state r.marks
  suffix : r.rest <:+ data
  done : r.outcome = .next → r.rest = []

theorem sound_loop {p : Parser} {m : Marks DataKind UInt8} (h : Live 0 p) (hm : Marked p.state m)
    {rounds : Nat} {data : Bytes} (hlen : data.length ≤ rounds) :
    (loop rounds p m data).Sound data := by
  induction rounds generalizing p m data with
  | zero =>
    obtain rfl : data = [] := List.length_eq_zero_iff.mp (Nat.le_zero.mp hlen)
    exact ⟨nofun, nofun, fun _ => h, fun _ => hm, List.suffix_refl _, fun _ => rfl⟩
  | succ rounds ih =>
    cases data with
    | nil => exact ⟨nofun, nofun, fun _ => h, fun _ => hm, List.suffix_refl _, fun _ => rfl⟩
    | cons ch rest =>
      have hmove := sound_iterate h ch rest
      unfold loop
      dsimp only
      split
      · rename_i hout
        have hne : (iterate p ch rest).outcome ≠ .error := by simp [hout]
        have hshort := hmove.shorter hne
        have hle : (iterate p ch rest).rest.length ≤ rounds := by
          simp only [List.length_cons] at hlen hshort
          omega
        have := ih (hmove.live hne) (hm.run (hmove.keeps hne)) hle
        exact ⟨this.runs, this.failed, this.live, this.marked, this.suffix.trans hmove.suffix,
          this.done⟩
      · rename_i hout
        exact ⟨hmove.runs, hmove.failed, hmove.live, fun hnext => absurd hnext hout, hmove.suffix,
          fun hnext => absurd hnext hout⟩

/-! ## Calls -/

theorem nodup_kinds : kinds.Nodup := by decide

theorem live_init (type : ParserType) : Live 0 (init type) := by
  cases type <;> exact ⟨rfl, by decide, by decide, trivial⟩

/-- A parser after any number of calls. -/
def Sane (p : Parser) : Prop := p.httpErrno = .ok → Live 0 p

theorem execute_sane {p : Parser} (h : Sane p) (data : Bytes) :
    Sane (execute p data).parser ∧ (execute p data).aborted = false := by
  unfold execute
  split
  · exact ⟨h, rfl⟩
  · rename_i hok
    have hlive := h (not_not.mp hok)
    split
    · unfold executeEof
      split
      all_goals first
        | exact ⟨h, rfl⟩
        | exact ⟨nofun, rfl⟩
    · have hloop := sound_loop hlive (marked_startMarks p.state) (Nat.le_refl data.length)
      unfold finish
      cases hout : (loop data.length p (startMarks p.state) data).outcome with
      | next =>
        dsimp only
        rw [if_pos ((hloop.marked hout).length_filter nodup_kinds)]
        exact ⟨fun _ => hloop.live (by simp [hout]), rfl⟩
      | exit => exact ⟨fun _ => hloop.live (by simp [hout]), rfl⟩
      | error => exact ⟨fun hok' => absurd hok' (hloop.failed hout), rfl⟩
      | abort => exact absurd hout hloop.runs

/-- `http_parser_execute` for one read after the other. -/
def calls (p : Parser) : List Bytes → List Result
  | [] => []
  | d :: ds => execute p d :: calls (execute p d).parser ds

theorem calls_sane {p : Parser} (h : Sane p) (ds : List Bytes) :
    ∀ r ∈ calls p ds, r.aborted = false ∧ Sane r.parser := by
  induction ds generalizing p with
  | nil => exact fun r hr => absurd hr (by simp [calls])
  | cons d ds ih =>
    intro r hr
    have hone := execute_sane h d
    rcases List.mem_cons.mp hr with rfl | hr
    · exact ⟨hone.2, hone.1⟩
    · exact ih hone.1 r hr

/-- Whatever is read, no assertion of the parser fails; without an error the content length it keeps
is one of 64 bits, and it has not counted more bytes of a header than are allowed. -/
theorem calls_sound (type : ParserType) (ds : List Bytes) :
    ∀ r ∈ calls (init type) ds, r.aborted = false ∧
      (r.parser.httpErrno = .ok →
        r.parser.contentLength < 2 ^ 64 ∧ r.parser.nread ≤ HTTP_MAX_HEADER_SIZE) := by
  intro r hr
  obtain ⟨hrun, hsane⟩ := calls_sane (fun _ => live_init type) ds r hr
  refine ⟨hrun, fun hok => ⟨?_, (hsane hok).count⟩⟩
  exact lt_of_le_of_lt (hsane hok).bound (by decide)

theorem calls_sound_get :
    (execute (init .both) (bytesOf "GET / HTTP/1.1\r\n\r\n")).aborted = false ∧
      (execute (init .both) (bytesOf "GET / HTTP/1.1\r\n\r\n")).parser.contentLength < 2 ^ 64 ∧
        (execute (init .both) (bytesOf "GET / HTTP/1.1\r\n\r\n")).parser.nread ≤
          HTTP_MAX_HEADER_SIZE := by
  have h := calls_sound .both [bytesOf "GET / HTTP/1.1\r\n\r\n"] _ List.mem_cons_self
  exact ⟨h.1, h.2 (by decide +kernel)⟩

end Third
end CoSocket
