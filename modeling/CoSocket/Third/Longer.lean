import CoSocket.Third.Counts

/-!
# Third.Longer

A round of the loop over a longer buffer. If the round over one byte goes well, then the round over
that byte and more does the same and leaves the rest of the buffer (most states), or it goes on with
the next byte as the next round would (`Longer`), which happens inside header names, header values
and bodies (`iterate_cons`).
-/

namespace CoSocket
namespace Third

open Base Pieces

/-- The round `mv` does what `before` and then the round `mv'` do. -/
structure Longer (before : List Action) (mv mv' : Move) : Prop where
  parser : mv.parser = mv'.parser
  outcome : mv.outcome = mv'.outcome
  rest : mv.rest = mv'.rest
  run : ∀ m : Marks DataKind UInt8, m.run mv.acts = (m.run before).1.run mv'.acts

/-! ## Counting in two steps -/

theorem countHeaderSize_succ (p : Parser) (k : Nat) :
    countHeaderSize { p with nread := (p.nread + 1) % 2 ^ 32 } k = countHeaderSize p (k + 1) := by
  have h : ((p.nread + 1) % 2 ^ 32 + k) % 2 ^ 32 = (p.nread + (k + 1)) % 2 ^ 32 := by
    rw [Nat.mod_add_mod, Nat.add_right_comm, Nat.add_assoc]
  simp only [countHeaderSize, h]

theorem counted_ok {p : Parser} {n : Nat} {acts : List Action} {rest : Bytes} {k : Parser → Move}
    (h : (counted p n acts rest k).outcome ≠ .error) :
    counted p n acts rest k = k (countHeaderSize p n) ∧
      (countHeaderSize p n).nread ≤ HTTP_MAX_HEADER_SIZE := by
  unfold counted at h ⊢
  split
  · rename_i hover
    rw [if_pos hover] at h
    exact absurd rfl h
  · rename_i hover
    exact ⟨rfl, Nat.le_of_not_lt hover⟩

theorem counted_eq {p : Parser} {n : Nat} {acts : List Action} {rest : Bytes} {k : Parser → Move}
    (h : (countHeaderSize p n).nread ≤ HTTP_MAX_HEADER_SIZE) :
    counted p n acts rest k = k (countHeaderSize p n) := by
  rw [counted, if_neg (Nat.not_lt.mpr h)]

/-! ## The ends of the inner loops -/

theorem run_pass (m : Marks DataKind UInt8) (ch : UInt8) (xs : Bytes) (as : List Action) :
    m.run (.advance (ch :: xs) :: as) =
      (m.run ([.advance [ch]] : List Action)).1.run (.advance xs :: as) :=
  Marks.run_advance_append m [ch] xs as

theorem fieldEnd_pass {s : Scan} (hnext : s.outcome = .next) (ch : UInt8)
    (hok : (fieldEnd (s.setNread ((s.parser.nread + 1) % 2 ^ 32))).outcome ≠ .error) :
    Longer [.advance [ch]] (fieldEnd (s.pass ch))
      (fieldEnd (s.setNread ((s.parser.nread + 1) % 2 ^ 32))) := by
  have hset : (s.setNread ((s.parser.nread + 1) % 2 ^ 32)).outcome = .next := hnext
  have hpass : (s.pass ch).outcome = .next := hnext
  rw [fieldEnd_next hset] at hok ⊢
  rw [fieldEnd_next hpass]
  obtain ⟨heq, hle⟩ := counted_ok hok
  rw [heq] at hok ⊢
  dsimp only [Scan.setNread, Scan.pass, List.length_cons] at hok hle ⊢
  rw [countHeaderSize_succ] at hok hle ⊢
  rw [counted_eq hle]
  cases hrest : s.rest with
  | nil => exact ⟨rfl, rfl, rfl, fun m => run_pass m ch _ _⟩
  | cons c rest =>
    simp only [hrest] at hok ⊢
    by_cases hc : c = ascii ':'
    · rw [if_pos hc, if_pos hc]
      exact ⟨rfl, rfl, rfl, fun m => run_pass m ch _ _⟩
    · rw [if_neg hc] at hok
      exact absurd rfl hok

theorem valueEnd_pass {s : Scan} (hnext : s.outcome = .next) (ch : UInt8)
    (hok : (valueEnd (s.setNread ((s.parser.nread + 1) % 2 ^ 32))).outcome ≠ .error) :
    Longer [.advance [ch]] (valueEnd (s.pass ch))
      (valueEnd (s.setNread ((s.parser.nread + 1) % 2 ^ 32))) := by
  have hset : (s.setNread ((s.parser.nread + 1) % 2 ^ 32)).outcome = .next := hnext
  have hpass : (s.pass ch).outcome = .next := hnext
  cases hrest : s.rest with
  | nil =>
    rw [valueEnd_nil hset hrest] at hok ⊢
    rw [valueEnd_nil hpass hrest]
    obtain ⟨heq, hle⟩ := counted_ok hok
    rw [heq]
    dsimp only [Scan.setNread, Scan.pass, List.length_cons] at hle ⊢
    rw [countHeaderSize_succ] at hle ⊢
    rw [counted_eq hle]
    exact ⟨rfl, rfl, rfl, fun m => run_pass m ch _ _⟩
  | cons c rest =>
    have hcount := countHeaderSize_succ { s.parser with state := .headerAlmostDone }
      s.passed.length
    rw [valueEnd_cons hset hrest] at hok ⊢
    rw [valueEnd_cons hpass hrest]
    dsimp only [Scan.setNread, Scan.pass, List.length_cons] at hok hcount ⊢
    by_cases hc : c = CR
    · rw [if_pos hc] at hok ⊢
      rw [if_pos hc]
      obtain ⟨heq, hle⟩ := counted_ok hok
      rw [heq]
      rw [hcount] at hle ⊢
      rw [counted_eq hle]
      exact ⟨rfl, rfl, rfl, fun m => run_pass m ch _ _⟩
    · rw [if_neg hc] at hok ⊢
      rw [if_neg hc]
      obtain ⟨heq, hle⟩ := counted_ok hok
      rw [heq]
      rw [hcount] at hle ⊢
      rw [counted_eq hle]
      exact ⟨rfl, rfl, rfl, fun m => run_pass m ch _ _⟩

theorem fieldEnd_stop {p : Parser} {ch : UInt8}
    (hok : (fieldEnd ⟨p, [], [ch], .next⟩).outcome = .next) (d : Bytes) :
    fieldEnd ⟨p, [], ch :: d, .next⟩ = { fieldEnd ⟨p, [], [ch], .next⟩ with rest := d } := by
  rw [fieldEnd_next rfl] at hok ⊢
  rw [fieldEnd_next rfl]
  obtain ⟨heq, hle⟩ := counted_ok (by rw [hok]; decide)
  rw [heq] at hok ⊢
  rw [counted_eq hle]
  dsimp only at hok ⊢
  split
  · rfl
  · rename_i hcolon
    rw [if_neg hcolon] at hok
    cases hok

theorem valueEnd_stop {p : Parser} {ch : UInt8}
    (hok : (valueEnd ⟨p, [], [ch], .next⟩).outcome = .next) (d : Bytes) :
    valueEnd ⟨p, [], ch :: d, .next⟩ = { valueEnd ⟨p, [], [ch], .next⟩ with rest := d } := by
  rw [valueEnd_cons rfl rfl] at hok ⊢
  rw [valueEnd_cons rfl rfl]
  by_cases hcr : ch = CR
  · rw [if_pos hcr] at hok ⊢
    rw [if_pos hcr]
    obtain ⟨heq, hle⟩ := counted_ok (by rw [hok]; decide)
    rw [heq, counted_eq hle]
    rfl
  · rw [if_neg hcr] at hok ⊢
    rw [if_neg hcr]
    obtain ⟨heq, hle⟩ := counted_ok (by rw [hok]; decide)
    rw [heq] at hok ⊢
    rw [counted_eq hle]
    unfold expect at hok ⊢
    split
    · rename_i hlf
      rw [if_pos hlf] at hok
      cases hok
    · rfl

theorem fieldEnd_one {p : Parser} {ch : UInt8}
    (hok : (fieldEnd ⟨p, [ch], [], .next⟩).outcome = .next) :
    fieldEnd ⟨p, [ch], [], .next⟩ = ⟨countHeaderSize p 1, [.advance [ch]], .next, []⟩ := by
  rw [fieldEnd_next rfl] at hok ⊢
  exact (counted_ok (by rw [hok]; decide)).1

theorem valueEnd_one {p : Parser} {ch : UInt8}
    (hok : (valueEnd ⟨p, [ch], [], .next⟩).outcome = .next) :
    valueEnd ⟨p, [ch], [], .next⟩ = ⟨countHeaderSize p 1, [.advance [ch]], .next, []⟩ := by
  rw [valueEnd_nil rfl rfl] at hok ⊢
  exact (counted_ok (by rw [hok]; decide)).1

theorem fieldEnd_ok {s : Scan} (h : s.outcome = .next ∨ s.outcome = .error)
    (hok : (fieldEnd s).outcome ≠ .error) : s.outcome = .next := by
  refine h.resolve_right fun herror => ?_
  rw [fieldEnd, if_pos (by simp [herror])] at hok
  exact hok herror

theorem valueEnd_ok {s : Scan} (h : s.outcome = .next ∨ s.outcome = .error)
    (hok : (valueEnd s).outcome ≠ .error) : s.outcome = .next := by
  refine h.resolve_right fun herror => ?_
  rw [valueEnd, if_pos (by simp [herror])] at hok
  exact hok herror

/-! ## The inner loops -/

theorem headerFieldLoop_one (p : Parser) (ch : UInt8) (hnext : (headerFieldLoop p [ch]).outcome =
    .next) :
    (headerFieldLoop p [ch] = ⟨p, [], [ch], .next⟩ ∧
      ∀ d, headerFieldLoop p (ch :: d) = ⟨p, [], ch :: d, .next⟩) ∨
    ∃ p', headerFieldLoop p [ch] = ⟨p', [ch], [], .next⟩ ∧
      ∀ d, headerFieldLoop p (ch :: d) = (headerFieldLoop p' d).pass ch := by
  by_cases ht : token ch = 0
  · exact .inl ⟨by simp [headerFieldLoop, ht], fun d => by simp [headerFieldLoop, ht]⟩
  · simp only [headerFieldLoop, if_neg ht] at hnext ⊢
    generalize headerFieldByte p ch = byte at hnext ⊢
    obtain ⟨p', acts, outcome⟩ := byte
    cases outcome with
    | next => exact .inr ⟨p', rfl, fun d => rfl⟩
    | exit | error | abort => cases hnext

theorem lineEnd_eq (data : Bytes) :
    lineEnd data =
      if (data.takeWhile fun c => c ≠ CR ∧ c ≠ LF).length < min data.length HTTP_MAX_HEADER_SIZE then
        (data.takeWhile fun c => c ≠ CR ∧ c ≠ LF,
          data.drop (data.takeWhile fun c => c ≠ CR ∧ c ≠ LF).length)
      else (data, []) := by
  unfold lineEnd
  rw [← List.take_takeWhile]
  generalize List.takeWhile (fun c => decide (c ≠ CR ∧ c ≠ LF)) data = w
  by_cases hlen : w.length ≤ HTTP_MAX_HEADER_SIZE
  · rw [List.take_of_length_le hlen]
  · rw [if_neg (by rw [List.length_take]; omega), if_neg (by omega)]

theorem lineEnd_cons {ch : UInt8} (hch : ch ≠ CR ∧ ch ≠ LF) (d : Bytes) :
    lineEnd (ch :: d) = (ch :: (lineEnd d).1, (lineEnd d).2) ∨
      (lineEnd d).1.length + 1 = HTTP_MAX_HEADER_SIZE := by
  rw [lineEnd_eq, lineEnd_eq, List.takeWhile_cons_of_pos (by simpa using hch)]
  generalize List.takeWhile (fun c => decide (c ≠ CR ∧ c ≠ LF)) d = w
  simp only [List.length_cons]
  by_cases hnear : w.length < min d.length HTTP_MAX_HEADER_SIZE
  · by_cases hlast : w.length + 1 < HTTP_MAX_HEADER_SIZE
    · rw [if_pos hnear, if_pos (by omega)]
      exact .inl rfl
    · rw [if_pos hnear]
      exact .inr (by simp only; omega)
  · rw [if_neg hnear, if_neg (by omega)]
    exact .inl rfl

theorem lineEnd_of_end {ch : UInt8} (hch : ch = CR ∨ ch = LF) (d : Bytes) :
    lineEnd (ch :: d) = ([], ch :: d) := by
  rw [lineEnd_eq, List.takeWhile_cons_of_neg (by simpa [or_iff_not_imp_left] using hch)]
  rw [if_pos (by simp [HTTP_MAX_HEADER_SIZE])]
  rfl

theorem headerValueLoop_general {p : Parser} (hgen : p.headerState = .general) {d : Bytes}
    (hd : d ≠ []) (hnext : (headerValueLoop p d).outcome = .next) :
    headerValueLoop p d = ⟨p, (lineEnd d).1, (lineEnd d).2, .next⟩ := by
  cases d with
  | nil => exact absurd rfl hd
  | cons c rest =>
    unfold headerValueLoop at hnext ⊢
    by_cases hc : c = CR ∨ c = LF
    · rw [if_pos hc, lineEnd_of_end hc]
    · rw [if_neg hc] at hnext ⊢
      by_cases hchar : (!isHeaderChar c) = true
      · rw [if_pos hchar] at hnext
        cases hnext
      · rw [if_neg hchar, if_pos hgen]

theorem headerValueLoop_one {p : Parser} {ch : UInt8}
    (hnext : (headerValueLoop p [ch]).outcome = .next) :
    (headerValueLoop p [ch] = ⟨p, [], [ch], .next⟩ ∧
      ∀ d, headerValueLoop p (ch :: d) = ⟨p, [], ch :: d, .next⟩) ∨
    ∃ p', headerValueLoop p [ch] = ⟨p', [ch], [], .next⟩ ∧
      ∀ d, d ≠ [] → (headerValueLoop p' d).outcome = .next →
        headerValueLoop p (ch :: d) = (headerValueLoop p' d).pass ch ∨
          (headerValueLoop p' d).passed.length + 1 = HTTP_MAX_HEADER_SIZE := by
  by_cases hend : ch = CR ∨ ch = LF
  · exact .inl ⟨by simp [headerValueLoop, hend], fun d => by simp [headerValueLoop, hend]⟩
  · have hne : ch ≠ CR ∧ ch ≠ LF := not_or.mp hend
    simp only [headerValueLoop, if_neg hend] at hnext ⊢
    by_cases hchar : (!isHeaderChar ch) = true
    · rw [if_pos hchar] at hnext
      cases hnext
    · simp only [if_neg hchar] at hnext ⊢
      by_cases hgen : p.headerState = .general
      · simp only [if_pos hgen] at hnext ⊢
        have hone : lineEnd [ch] = ([ch], []) := by
          rw [lineEnd_eq, List.takeWhile_cons_of_pos (by simpa using hne)]
          simp
        refine .inr ⟨p, by rw [hone], fun d hd hok => ?_⟩
        rw [headerValueLoop_general hgen hd hok]
        rcases lineEnd_cons hne d with heq | hfar
        · exact .inl (by rw [heq]; rfl)
        · exact .inr hfar
      · simp only [if_neg hgen] at hnext ⊢
        generalize headerValueByte p ch = byte at hnext ⊢
        obtain ⟨p', acts, outcome⟩ := byte
        cases outcome with
        | next => exact .inr ⟨p', rfl, fun d _ _ => .inl rfl⟩
        | exit | error | abort => cases hnext

/-! ## One round -/

/-- The two ways in which the round over one byte goes on with a longer buffer. -/
def GoesOn (p : Parser) (ch c : UInt8) (rest : Bytes) : Prop :=
  iterate p ch (c :: rest) = { iterate p ch [] with rest := c :: rest } ∨
    (∃ p', Fewer p' (iterate p ch []).parser ∧
      ((iterate p' c rest).outcome ≠ .error →
        Longer (iterate p ch []).acts (iterate p ch (c :: rest)) (iterate p' c rest))) ∧
      ∀ m : Marks DataKind UInt8, (m.run (iterate p ch []).acts).2 = []

theorem iterate_header {p : Parser} (hp : p.state.parsingHeader = true) (ch : UInt8) (rest : Bytes) :
    iterate p ch rest = counted p 1 [] (ch :: rest) fun p => dispatch p ch rest := by
  rw [iterate, if_pos hp]

theorem iterate_body {p : Parser} (hp : p.state.parsingHeader = false) (ch : UInt8) (rest : Bytes) :
    iterate p ch rest = dispatch p ch rest := by
  rw [iterate, if_neg (by simp [hp])]

theorem iterate_counted {p : Parser} (hp : p.state.parsingHeader = true) {ch : UInt8}
    {rest : Bytes} (hok : (iterate p ch rest).outcome ≠ .error) :
    (countHeaderSize p 1).nread ≤ HTTP_MAX_HEADER_SIZE ∧
      ∀ rest, iterate p ch rest = dispatch (countHeaderSize p 1) ch rest := by
  rw [iterate_header hp] at hok
  obtain ⟨-, hle⟩ := counted_ok hok
  exact ⟨hle, fun rest => by rw [iterate_header hp, counted_eq hle]⟩

theorem fewer_count {p : Parser} (h : p.nread ≤ HTTP_MAX_HEADER_SIZE) :
    Fewer p (countHeaderSize p 1) := by
  rw [HTTP_MAX_HEADER_SIZE] at h
  refine ⟨p.nread, ?_, rfl⟩
  show p.nread ≤ (p.nread + 1) % 2 ^ 32
  omega

theorem inside_counted {p : Parser} {st : State} {inside : HeaderStates → Bool} (h : Live 0 p)
    (hs : p.state = st) (hin : inside p.headerState = true)
    (hle : (countHeaderSize p 1).nread ≤ HTTP_MAX_HEADER_SIZE) :
    Inside st inside (countHeaderSize p 1) := ⟨⟨h.errno, h.bound, hle⟩, hs, hin⟩

theorem dispatch_field {p : Parser} (hs : p.state = .headerField) (ch : UInt8) (rest : Bytes) :
    dispatch p ch rest = fieldEnd (headerFieldLoop p (ch :: rest)) := by
  unfold dispatch
  rw [hs]
  rfl

theorem goesOn_headerField {p : Parser} (h : Live 0 p) (hs : p.state = .headerField) {ch : UInt8}
    (hok : (iterate p ch []).outcome = .next) (c : UInt8) (rest : Bytes) : GoesOn p ch c rest := by
  have hne : (iterate p ch []).outcome ≠ .error := by simp [hok]
  obtain ⟨hle, hit⟩ := iterate_counted (by rw [hs]; rfl) hne
  have hin : Inside .headerField HeaderStates.inField (countHeaderSize p 1) :=
    inside_counted h hs (by simpa [Good, hs] using h.good) hle
  have hscan := sound_headerFieldLoop hin [ch]
  unfold GoesOn
  simp only [hit, dispatch_field hin.state] at hok ⊢
  have hnext := fieldEnd_ok hscan.next (by rw [hok]; decide)
  rcases headerFieldLoop_one _ ch hnext with ⟨hone, hmore⟩ | ⟨p', hone, hmore⟩
  · rw [hone] at hok ⊢
    rw [hmore]
    exact .inl (fieldEnd_stop hok (c :: rest))
  · have hnread : p'.nread = (countHeaderSize p 1).nread := by
      have := nread_headerFieldLoop (countHeaderSize p 1) [ch]
      rwa [hone] at this
    have hin' : Inside .headerField HeaderStates.inField p' := by
      have := hscan.stays hnext
      rwa [hone] at this
    rw [hone] at hok ⊢
    rw [hmore, fieldEnd_one hok]
    refine .inr ⟨⟨p', fewer_count (hnread ▸ hle), fun hok' => ?_⟩, fun m => rfl⟩
    obtain ⟨-, hit'⟩ := iterate_counted (by rw [hin'.state]; rfl) hok'
    have hset : headerFieldLoop (countHeaderSize p' 1) (c :: rest) =
        (headerFieldLoop p' (c :: rest)).setNread
          (((headerFieldLoop p' (c :: rest)).parser.nread + 1) % 2 ^ 32) := by
      rw [nread_headerFieldLoop]
      exact headerFieldLoop_nread p' _ _
    have hstate : (countHeaderSize p' 1).state = .headerField := hin'.state
    have hscan' := sound_headerFieldLoop hin' (c :: rest)
    rw [hit', dispatch_field hstate, hset] at hok'
    rw [hit', dispatch_field hstate, hset]
    have hnext' : (headerFieldLoop p' (c :: rest)).outcome = .next := by
      have := fieldEnd_ok (by exact hscan'.next) hok'
      exact this
    exact fieldEnd_pass hnext' ch hok'

theorem dispatch_value {p : Parser} (hs : p.state = .headerValue) (ch : UInt8) (rest : Bytes) :
    dispatch p ch rest = valueEnd (headerValueLoop p (ch :: rest)) := by
  unfold dispatch
  rw [hs]
  rfl

theorem passed_ne_of_valueEnd {s : Scan} (hnext : s.outcome = .next) (hpos : 0 < s.parser.nread)
    (hle : s.parser.nread ≤ HTTP_MAX_HEADER_SIZE)
    (hok : (valueEnd (s.setNread ((s.parser.nread + 1) % 2 ^ 32))).outcome ≠ .error) :
    s.passed.length + 1 ≠ HTTP_MAX_HEADER_SIZE := by
  have hset : (s.setNread ((s.parser.nread + 1) % 2 ^ 32)).outcome = .next := hnext
  have hcount : ((s.parser.nread + 1) % 2 ^ 32 + s.passed.length) % 2 ^ 32 ≤
      HTTP_MAX_HEADER_SIZE := by
    cases hrest : s.rest with
    | nil =>
      rw [valueEnd_nil hset hrest] at hok
      exact (counted_ok hok).2
    | cons c rest =>
      rw [valueEnd_cons hset hrest] at hok
      split at hok
      · exact (counted_ok hok).2
      · exact (counted_ok hok).2
  rw [HTTP_MAX_HEADER_SIZE] at *
  omega

theorem goesOn_headerValue {p : Parser} (h : Live 0 p) (hs : p.state = .headerValue) {ch : UInt8}
    (hok : (iterate p ch []).outcome = .next) (c : UInt8) (rest : Bytes) : GoesOn p ch c rest := by
  have hne : (iterate p ch []).outcome ≠ .error := by simp [hok]
  obtain ⟨hle, hit⟩ := iterate_counted (by rw [hs]; rfl) hne
  have hin : Inside .headerValue HeaderStates.inValue (countHeaderSize p 1) :=
    inside_counted h hs (by simpa [Good, hs] using h.good) hle
  have hpos : 0 < (countHeaderSize p 1).nread := by
    have := h.count
    rw [HTTP_MAX_HEADER_SIZE] at this
    show 0 < (p.nread + 1) % 2 ^ 32
    omega
  have hscan := sound_headerValueLoop hin [ch]
  unfold GoesOn
  simp only [hit, dispatch_value hin.state] at hok ⊢
  have hnext := valueEnd_ok hscan.next (by rw [hok]; decide)
  rcases headerValueLoop_one hnext with ⟨hone, hmore⟩ | ⟨p', hone, hmore⟩
  · rw [hone] at hok ⊢
    rw [hmore]
    exact .inl (valueEnd_stop hok (c :: rest))
  · have hnread : p'.nread = (countHeaderSize p 1).nread := by
      have := nread_headerValueLoop (countHeaderSize p 1) [ch]
      rwa [hone] at this
    have hin' : Inside .headerValue HeaderStates.inValue p' := by
      have := hscan.stays hnext
      rwa [hone] at this
    rw [hone] at hok ⊢
    rw [valueEnd_one hok]
    refine .inr ⟨⟨p', fewer_count (hnread ▸ hle), fun hok' => ?_⟩, fun m => rfl⟩
    obtain ⟨-, hit'⟩ := iterate_counted (by rw [hin'.state]; rfl) hok'
    have hset : headerValueLoop (countHeaderSize p' 1) (c :: rest) =
        (headerValueLoop p' (c :: rest)).setNread
          (((headerValueLoop p' (c :: rest)).parser.nread + 1) % 2 ^ 32) := by
      rw [nread_headerValueLoop]
      exact headerValueLoop_nread p' _ _
    have hstate : (countHeaderSize p' 1).state = .headerValue := hin'.state
    have hscan' := sound_headerValueLoop hin' (c :: rest)
    rw [hit', dispatch_value hstate, hset] at hok'
    rw [hit', dispatch_value hstate, hset]
    have hnext' : (headerValueLoop p' (c :: rest)).outcome = .next := by
      have := valueEnd_ok (by exact hscan'.next) hok'
      exact this
    rcases hmore (c :: rest) (List.cons_ne_nil _ _) hnext' with heq | hfar
    · rw [heq]
      exact valueEnd_pass hnext' ch hok'
    · refine absurd hfar (passed_ne_of_valueEnd hnext' ?_ ?_ hok')
      · rw [nread_headerValueLoop, hnread]
        exact hpos
      · rw [nread_headerValueLoop, hnread]
        exact hle

/-! ## Bodies -/

theorem run_body (m : Marks DataKind UInt8) (ch : UInt8) (xs : Bytes) (as : List Action) :
    m.run (.mark .body :: .advance (ch :: xs) :: as) =
      (m.run ([.mark .body, .advance [ch]] : List Action)).1.run
        (.mark .body :: .advance xs :: as) := by
  have hmark : (m.act (.mark .body : Action)).1 .body = some ((m .body).getD []) := by
    simp [Marks.act]
  have hset : ((m.act (.mark .body : Action)).1.act (.advance [ch] : Action)).1 .body =
      some ((m .body).getD [] ++ [ch]) := congrArg (Option.map (· ++ [ch])) hmark
  show (m.act (.mark .body : Action)).1.run _ = _
  rw [run_pass]
  exact (run_mark hset _).symm

theorem iterate_eof {p : Parser} (hs : p.state = .bodyIdentityEof) (ch : UInt8) (rest : Bytes) :
    iterate p ch rest = ⟨p, [.mark .body, .advance (ch :: rest)], .next, []⟩ := by
  rw [iterate_body (by rw [hs]; rfl), dispatch, hs]
  rfl

theorem goesOn_bodyIdentityEof {p : Parser} (hs : p.state = .bodyIdentityEof) (ch c : UInt8)
    (rest : Bytes) : GoesOn p ch c rest := by
  refine .inr ⟨⟨p, ?_, fun _ => ?_⟩, fun m => ?_⟩
  · rw [iterate_eof hs]
    exact .refl p
  · simp only [iterate_eof hs]
    exact ⟨rfl, rfl, rfl, fun m => run_body m ch (c :: rest) []⟩
  · rw [iterate_eof hs]
    rfl

theorem min_succ {n len : Nat} (hn : 1 < n) : min n (len + 1) = min (n - 1) len + 1 := by omega

theorem sub_min_succ {n len : Nat} (hn : 1 < n) :
    n - min n (len + 1) = n - 1 - min (n - 1) len := by omega

theorem iterate_chunkData {p : Parser} (hs : p.state = .chunkData) (ch : UInt8) (rest : Bytes) :
    iterate p ch rest = chunkData p (ch :: rest) := by
  rw [iterate_body (by rw [hs]; rfl)]
  unfold dispatch
  rw [hs]

theorem goesOn_chunkData {p : Parser} (h : Live 0 p) (hs : p.state = .chunkData) (ch c : UInt8)
    (rest : Bytes) : GoesOn p ch c rest := by
  obtain ⟨hchunked, hpos, hlt⟩ :
      p.flags.chunked = true ∧ 0 < p.contentLength ∧ p.contentLength < ULLONG_MAX := by
    simpa [Good, hs] using h.good
  have hok : ¬(¬p.flags.chunked = true ∨ p.contentLength = 0 ∨ p.contentLength = ULLONG_MAX) := by
    rw [hchunked]
    simp
    omega
  unfold GoesOn
  simp only [iterate_chunkData hs]
  by_cases hone : p.contentLength = 1
  · have hall : ∀ d, chunkData p (ch :: d) =
        ⟨{ p with contentLength := 0, state := .chunkDataAlmostDone },
          [.mark .body, .advance [ch]], .next, d⟩ := by
      intro d
      have hmin : min p.contentLength (ch :: d).length = 1 := by
        rw [List.length_cons]
        omega
      rw [chunkData, if_neg hok, hmin, hone]
      rfl
    exact .inl (by rw [hall, hall])
  · have hgt : 1 < p.contentLength := by omega
    have hok' : ¬(¬p.flags.chunked = true ∨ p.contentLength - 1 = 0 ∨
        p.contentLength - 1 = ULLONG_MAX) := by
      rw [hchunked]
      simp
      omega
    have hfirst : chunkData p [ch] = ⟨{ p with contentLength := p.contentLength - 1 },
        [.mark .body, .advance [ch]], .next, []⟩ := by
      simp only [chunkData, if_neg hok, List.length_cons, List.length_nil]
      rw [min_succ hgt, Nat.min_zero, if_neg (by omega)]
      rfl
    rw [hfirst]
    refine .inr ⟨⟨_, .refl _, fun _ => ?_⟩, fun m => rfl⟩
    rw [iterate_chunkData (p := { p with contentLength := p.contentLength - 1 }) hs]
    simp only [chunkData, if_neg hok, if_neg hok', List.length_cons]
    rw [min_succ hgt, ← sub_min_succ hgt, min_succ hgt]
    exact ⟨rfl, rfl, rfl, fun m => run_body m ch _ []⟩

theorem iterate_bodyIdentity {p : Parser} (hs : p.state = .bodyIdentity) (ch : UInt8)
    (rest : Bytes) : iterate p ch rest = bodyIdentity p (ch :: rest) := by
  rw [iterate_body (by rw [hs]; rfl)]
  unfold dispatch
  rw [hs]

theorem Step.move_next {s : Step} (h : s.outcome = .next) (ch : UInt8) (rest : Bytes) :
    s.move ch rest = { s.move ch [] with rest := rest } := by
  simp [Step.move, h]

theorem take_drop_succ {n : Nat} (hn : 0 < n) (ch : UInt8) (d : Bytes) :
    (ch :: d).take n = ch :: d.take (n - 1) ∧ (ch :: d).drop n = d.drop (n - 1) := by
  obtain ⟨k, rfl⟩ := Nat.exists_eq_add_of_lt hn
  exact ⟨by simp, by simp⟩

theorem goesOn_bodyIdentity {p : Parser} (h : Live 0 p) (hs : p.state = .bodyIdentity)
    {ch : UInt8} (hnext : (iterate p ch []).outcome = .next) (c : UInt8) (rest : Bytes) :
    GoesOn p ch c rest := by
  obtain ⟨hpos, hlt⟩ : 0 < p.contentLength ∧ p.contentLength < ULLONG_MAX := by
    simpa [Good, hs] using h.good
  have hok : ¬(p.contentLength = 0 ∨ p.contentLength = ULLONG_MAX) := by omega
  unfold GoesOn
  simp only [iterate_bodyIdentity hs] at hnext ⊢
  by_cases hone : p.contentLength = 1
  · have hall : ∀ d, bodyIdentity p (ch :: d) =
        ((messageDone { p with contentLength := 0, state := .messageDone }).after
          [.mark .body, .advance [], .dataThrough .body ch]).move ch d := by
      intro d
      have hmin : min p.contentLength (ch :: d).length = 1 := by
        rw [List.length_cons]
        omega
      rw [bodyIdentity, if_neg hok, hmin, hone]
      rfl
    left
    rw [hall] at hnext ⊢
    rw [hall]
    exact Step.move_next hnext ch (c :: rest)
  · have hgt : 1 < p.contentLength := by omega
    have hok' : ¬(p.contentLength - 1 = 0 ∨ p.contentLength - 1 = ULLONG_MAX) := by omega
    have hfirst : bodyIdentity p [ch] = ⟨{ p with contentLength := p.contentLength - 1 },
        [.mark .body, .advance [ch]], .next, []⟩ := by
      simp only [bodyIdentity, if_neg hok, List.length_cons, List.length_nil]
      rw [min_succ hgt, Nat.min_zero, if_neg (by omega)]
      rfl
    rw [hfirst]
    refine .inr ⟨⟨_, .refl _, fun _ => ?_⟩, fun m => rfl⟩
    rw [iterate_bodyIdentity (p := { p with contentLength := p.contentLength - 1 }) hs]
    simp only [bodyIdentity, if_neg hok, if_neg hok', List.length_cons]
    rw [sub_min_succ hgt, min_succ hgt, Nat.add_sub_cancel]
    obtain ⟨htake, hdrop⟩ := take_drop_succ (n := min (p.contentLength - 1) (rest.length + 1))
      (by omega) ch (c :: rest)
    rw [htake, hdrop]
    by_cases hlast : p.contentLength - 1 - min (p.contentLength - 1) (rest.length + 1) = 0
    · rw [if_pos hlast, if_pos hlast]
      split
      · rename_i hnil
        rw [List.drop_eq_nil_iff, List.length_cons] at hnil
        omega
      · exact ⟨rfl, rfl, rfl, fun m => run_body m ch _ _⟩
    · rw [if_neg hlast, if_neg hlast]
      exact ⟨rfl, rfl, rfl, fun m => run_body m ch _ []⟩

/-- A longer buffer changes nothing about a round, or the round goes on with the next byte. -/
theorem iterate_cons {p : Parser} (h : Live 0 p) {ch : UInt8}
    (hok : (iterate p ch []).outcome = .next) (c : UInt8) (rest : Bytes) : GoesOn p ch c rest := by
  by_cases hmany : p.state.readsMany = true
  · cases hs : p.state with
    | headerField => exact goesOn_headerField h hs hok c rest
    | headerValue => exact goesOn_headerValue h hs hok c rest
    | bodyIdentity => exact goesOn_bodyIdentity h hs hok c rest
    | bodyIdentityEof => exact goesOn_bodyIdentityEof hs ch c rest
    | chunkData => exact goesOn_chunkData h hs ch c rest
    | _ =>
      rw [hs] at hmany
      cases hmany
  · rw [Bool.not_eq_true] at hmany
    left
    by_cases hp : p.state.parsingHeader = true
    · have hne : (iterate p ch []).outcome ≠ .error := by simp [hok]
      obtain ⟨-, hit⟩ := iterate_counted hp hne
      have hmany' : (countHeaderSize p 1).state.readsMany = false := hmany
      rw [hit, dispatch_one hmany'] at hok
      rw [hit, hit, dispatch_one hmany', dispatch_one hmany']
      exact Step.move_next hok ch (c :: rest)
    · rw [Bool.not_eq_true] at hp
      rw [iterate_body hp, dispatch_one hmany] at hok
      rw [iterate_body hp, iterate_body hp, dispatch_one hmany, dispatch_one hmany]
      exact Step.move_next hok ch (c :: rest)

end Third
end CoSocket
