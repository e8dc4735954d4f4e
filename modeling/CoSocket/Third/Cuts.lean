import CoSocket.Third.Longer

/-!
# Third.Cuts

How the bytes are cut into reads does not matter. If reading a stream one byte at a time goes well
(`Plain`), then reading it in any other pieces does: every call reads all of its bytes, the parser
ends in the same state, up to the number of header bytes it has counted, and the callbacks are the
same up to the cuts of the data (`feed_cuts`).

One byte at a time is the hardest way to read a stream: the parser counts the most bytes of a header
then, and it looks at each character of a header value.
-/

namespace CoSocket
namespace Third

open Base Pieces

/-- `http_parser_execute` for one read after the other: the parser in the end, and the callbacks. -/
def feed (p : Parser) : List Bytes → Parser × List Event
  | [] => (p, [])
  | d :: ds =>
    ((feed (execute p d).parser ds).1, (execute p d).events ++ (feed (execute p d).parser ds).2)

/-- One byte at a time. -/
def bytewise (bs : Bytes) : List Bytes := bs.map fun b => [b]

/-- Reading the bytes one at a time goes without an error, and no message that ends before them asks
for another protocol. -/
def Plain (p : Parser) : Bytes → Prop
  | [] => True
  | b :: bs =>
    (execute p [b]).parser.httpErrno = .ok ∧ (bs ≠ [] → (execute p [b]).parser.upgrade = false) ∧
      Plain (execute p [b]).parser bs

instance decidablePlain : (p : Parser) → (bs : Bytes) → Decidable (Plain p bs)
  | _, [] => .isTrue trivial
  | p, b :: bs =>
    have := decidablePlain (execute p [b]).parser bs
    inferInstanceAs (Decidable (_ ∧ _ ∧ _))

theorem feed_append (p : Parser) (ds es : List Bytes) :
    feed p (ds ++ es) =
      ((feed (feed p ds).1 es).1, (feed p ds).2 ++ (feed (feed p ds).1 es).2) := by
  induction ds generalizing p with
  | nil => rfl
  | cons d ds ih => simp only [List.cons_append, feed, ih, List.append_assoc]

theorem Plain.append {p : Parser} {bs cs : Bytes} (h : Plain p (bs ++ cs)) :
    Plain p bs ∧ Plain (feed p (bytewise bs)).1 cs := by
  induction bs generalizing p with
  | nil => exact ⟨trivial, h⟩
  | cons b bs ih =>
    obtain ⟨hok, hup, hrest⟩ := h
    obtain ⟨hbs, hcs⟩ := ih hrest
    refine ⟨⟨hok, fun hne => hup ?_, hbs⟩, hcs⟩
    exact fun hnil => hne (List.append_eq_nil_iff.mp hnil).1

theorem Plain.live {p : Parser} {bs : Bytes} (h : Plain p bs) (hp : Live 0 p) :
    Live 0 (feed p (bytewise bs)).1 := by
  induction bs generalizing p with
  | nil => exact hp
  | cons b bs ih =>
    obtain ⟨hok, -, hrest⟩ := h
    exact ih hrest ((execute_sane (fun _ => hp) [b]).1 hok)

/-! ## One byte -/

theorem rest_iterate {p : Parser} (h : Live 0 p) {ch : UInt8}
    (hok : (iterate p ch []).outcome ≠ .error) : (iterate p ch []).rest = [] := by
  have := (sound_iterate h ch []).shorter hok
  exact List.length_eq_zero_iff.mp (by simpa using this)

theorem execute_single {p : Parser} (h : Live 0 p) {ch : UInt8}
    (hok : (iterate p ch []).outcome ≠ .error) :
    (execute p [ch]).parser = (iterate p ch []).parser ∧
      (execute p [ch]).events = ((startMarks p.state).run (iterate p ch []).acts).2 ++
        ((startMarks p.state).run (iterate p ch []).acts).1.flush kinds := by
  have hmove := sound_iterate h ch []
  have hkept := (marked_startMarks p.state).run (hmove.keeps hok)
  have hex : execute p [ch] = finish 1 (loop 1 p (startMarks p.state) [ch]) := by
    rw [execute, if_neg (by simp [h.errno]), if_neg (by simp)]
    rfl
  rw [hex]
  simp only [loop]
  cases hout : (iterate p ch []).outcome with
  | next =>
    simp only [finish]
    rw [if_pos (hkept.length_filter nodup_kinds), List.append_nil]
    exact ⟨rfl, rfl⟩
  | exit =>
    rw [Marked, (hmove.left hout).2] at hkept
    refine ⟨rfl, ?_⟩
    rw [hkept.eq_none, flush_none, List.append_nil]
    rfl
  | error => exact absurd hout hok
  | abort => exact absurd hout hmove.runs

theorem iterate_of_execute {p : Parser} (h : Live 0 p) {ch : UInt8}
    (hok : (execute p [ch]).parser.httpErrno = .ok) : (iterate p ch []).outcome ≠ .error := by
  intro hout
  rw [execute, if_neg (by simp [h.errno]), if_neg (by simp)] at hok
  simp only [List.length_singleton, loop, hout] at hok
  exact (sound_iterate h ch []).failed hout hok

/-! ## Marks that are older than the buffer -/

theorem mem_kinds (k : DataKind) : k ∈ kinds := by
  cases k <;> decide

theorem startMarks_of_kind {s : State} {k : DataKind} (h : s.kind = some k) (hk : k ≠ .body) :
    startMarks s k = some [] := by
  cases s <;> simp_all [State.kind, startMarks, State.inUrl] <;> subst h <;> rfl

theorem startMarks_of_body {s : State} (h : s.kind = some .body) :
    startMarks s = fun _ => none := by
  funext k
  cases s <;> simp_all [State.kind] <;> cases k <;> rfl

theorem acts_body {p : Parser} (h : Live 0 p) (hs : p.state.kind = some .body) {ch : UInt8}
    (hok : (iterate p ch []).outcome ≠ .error) :
    (∃ as, (iterate p ch []).acts = .mark .body :: as) ∨
      ∃ as, (iterate p ch []).acts = .data .body :: as := by
  have hmove := sound_iterate h ch []
  cases hstate : p.state with
  | bodyIdentityEof => exact .inl ⟨_, by rw [iterate_eof hstate]⟩
  | bodyIdentity =>
    obtain ⟨hpos, hlt⟩ : 0 < p.contentLength ∧ p.contentLength < ULLONG_MAX := by
      simpa [Good, hstate] using h.good
    rw [iterate_bodyIdentity hstate, bodyIdentity, if_neg (by omega)]
    dsimp only
    split
    · split
      · rename_i hnil
        rw [List.drop_eq_nil_iff, List.length_singleton] at hnil
        omega
      · exact .inl ⟨_, rfl⟩
    · exact .inl ⟨_, rfl⟩
  | chunkData =>
    obtain ⟨hchunked, hpos, hlt⟩ :
        p.flags.chunked = true ∧ 0 < p.contentLength ∧ p.contentLength < ULLONG_MAX := by
      simpa [Good, hstate] using h.good
    rw [iterate_chunkData hstate, chunkData, if_neg (by rw [hchunked]; simp; omega)]
    exact .inl ⟨_, rfl⟩
  | chunkDataAlmostDone =>
    have hp : p.state.parsingHeader = false := by rw [hstate]; rfl
    have hmany : p.state.readsMany = false := by rw [hstate]; rfl
    have hgood : p.flags.chunked = true ∧ p.contentLength = 0 := by
      simpa [Good, hstate] using h.good
    rw [iterate_body hp, dispatch_one hmany, handle, hstate] at hok ⊢
    dsimp only [Step.move] at hok ⊢
    rw [chunkDataAlmostDone, if_neg (not_not.mpr hgood)] at hok ⊢
    split at hok
    · exact absurd rfl hok
    · rename_i hcr
      rw [if_neg hcr]
      exact .inr ⟨_, rfl⟩
  | _ =>
    rw [hstate] at hs
    cases hs

/-- Marks from an earlier buffer hand out what they had, and then what new marks hand out. -/
theorem glue_round {p : Parser} (h : Live 0 p) {m : Marks DataKind UInt8} (hm : Marked p.state m)
    {ch : UInt8} (hok : (iterate p ch []).outcome ≠ .error) :
    glue ((m.run (iterate p ch []).acts).2 ++ (m.run (iterate p ch []).acts).1.flush kinds) =
      glue (m.flush kinds ++ (((startMarks p.state).run (iterate p ch []).acts).2 ++
        ((startMarks p.state).run (iterate p ch []).acts).1.flush kinds)) := by
  have hstart := marked_startMarks p.state
  obtain ⟨o', ht, -⟩ := (sound_iterate h ch []).keeps hok
  cases hkind : p.state.kind with
  | none =>
    rw [Marked, hkind] at hm hstart
    rw [hm.eq_none, hstart.eq_none, flush_none, List.nil_append]
  | some k =>
    rw [Marked, hkind] at hm hstart
    rw [hkind] at ht
    by_cases hbody : k = .body
    · subst hbody
      rw [startMarks_of_body hkind]
      cases hset : m .body with
      | none =>
        rw [hm.eq_none_of hset, flush_none, List.nil_append]
      | some xs =>
        rw [flush_single hm hset nodup_kinds (mem_kinds _)]
        rcases acts_body h hkind hok with ⟨as, has⟩ | ⟨as, has⟩
        · rw [has] at ht ⊢
          rw [track, if_pos (.inr rfl)] at ht
          exact glue_run_mark hm hset ht nodup_kinds (mem_kinds _)
        · rw [has]
          simp only [Marks.run, hm.act_data]
          simp only [Marks.act, hset]
          rfl
    · have hmust := hm.must k hbody rfl
      obtain ⟨xs, hxs⟩ := Option.isSome_iff_exists.mp hmust
      have hall : ∀ {m : Marks DataKind UInt8} {ys : Bytes},
          Tracked (fun k => k ≠ .body) (some k) m → m k = some ys → Tracked (fun _ => True) (some k) m := by
        intro m ys hm hys
        refine ⟨hm.only, fun k' _ hk' => ?_⟩
        rw [← Option.some.inj hk', hys]
        rfl
      have hnew := startMarks_of_kind hkind hbody
      rw [flush_single hm hxs nodup_kinds (mem_kinds _)]
      exact Ahead.glue_run ⟨hall hm hxs, hall hstart hnew, [], hnew, by rw [hxs, List.append_nil]⟩
        ht nodup_kinds (mem_kinds _)

/-! ## One buffer -/

theorem loop_rounds {p : Parser} (h : Live 0 p) (m : Marks DataKind UInt8) {n k : Nat}
    {data : Bytes} (hn : data.length ≤ n) (hk : data.length ≤ k) :
    loop n p m data = loop k p m data := by
  induction n generalizing p m k data with
  | zero =>
    obtain rfl : data = [] := List.length_eq_zero_iff.mp (Nat.le_zero.mp hn)
    cases k <;> rfl
  | succ n ih =>
    cases data with
    | nil => cases k <;> rfl
    | cons ch rest =>
      cases k with
      | zero => simp at hk
      | succ k =>
        have hmove := sound_iterate h ch rest
        simp only [loop]
        cases hout : (iterate p ch rest).outcome with
        | next =>
          have hne : (iterate p ch rest).outcome ≠ .error := by simp [hout]
          have hshort := hmove.shorter hne
          simp only [List.length_cons] at hn hk hshort
          have hn' : (iterate p ch rest).rest.length ≤ n := by omega
          have hk' : (iterate p ch rest).rest.length ≤ k := by omega
          rw [ih (hmove.live hne) _ hn' hk']
        | exit | error | abort => rfl

theorem Fewer.live {p q : Parser} (h : Fewer p q) (hq : Live 0 q) : Live 0 p := by
  obtain ⟨n, hn, rfl⟩ := h
  refine ⟨hq.errno, hq.bound, hn.trans hq.count, ?_⟩
  have hgood := hq.good
  unfold Good at hgood ⊢
  dsimp only
  split at hgood <;> simp_all

theorem Fewer.trans {p q r : Parser} (h : Fewer p q) (h' : Fewer q r) : Fewer p r := by
  obtain ⟨n, hn, rfl⟩ := h
  obtain ⟨k, hk, rfl⟩ := h'
  exact ⟨n, hn.trans hk, rfl⟩

/-- What is given out before the first round: what the marks have from earlier buffers. -/
def Pending (s : State) (m : Marks DataKind UInt8) (given : List Event) : Prop :=
  given = m.flush kinds ∨ m = startMarks s ∧ given = []

/-- The round over a byte, and the call with that byte alone. -/
structure Round (q : Parser) (ch : UInt8) (m : Marks DataKind UInt8) (given : List Event)
    (mv : Move) : Prop where
  ok : mv.outcome ≠ .error
  parser : Fewer mv.parser (execute q [ch]).parser
  live : Live 0 (execute q [ch]).parser
  upgrade : mv.outcome = .exit → (execute q [ch]).parser.upgrade = true
  events : glue ((m.run mv.acts).2 ++ (m.run mv.acts).1.flush kinds) =
    glue (given ++ (execute q [ch]).events)

theorem round_of_fewer {p q : Parser} (hpq : Fewer p q) (hq : Live 0 q) {m : Marks DataKind UInt8}
    (hm : Marked p.state m) {given : List Event} (hgiven : Pending p.state m given) {ch : UInt8}
    (hok : (execute q [ch]).parser.httpErrno = .ok) : Round q ch m given (iterate p ch []) := by
  have hne := iterate_of_execute hq hok
  obtain ⟨hparser, hevents⟩ := execute_single hq hne
  have hfewer := fewer_iterate hpq hq hne
  have hok' : (iterate p ch []).outcome ≠ .error := by
    rw [hfewer.outcome]
    exact hne
  refine ⟨hok', by rw [hparser]; exact hfewer.parser, ?_, fun hexit => ?_, ?_⟩
  · rw [hparser]
    exact (sound_iterate hq ch []).live hne
  · rw [hfewer.outcome] at hexit
    rw [hparser]
    exact ((sound_iterate hq ch []).left hexit).1
  · rw [hevents, ← hfewer.acts, ← hpq.state]
    rcases hgiven with rfl | ⟨rfl, rfl⟩
    · exact glue_round (hpq.live hq) hm hok'
    · rfl

/-- What the loop over a buffer has to do with reading its bytes one at a time. -/
structure Follows (q : Parser) (data : Bytes) (given : List Event) (r : Run) : Prop where
  ok : r.outcome = .next ∨ r.outcome = .exit
  done : r.rest = []
  left : r.outcome = .exit → r.marks = fun _ => none
  parser : Fewer r.parser (feed q (bytewise data)).1
  events : glue (r.events ++ r.marks.flush kinds) = glue (given ++ (feed q (bytewise data)).2)

theorem Follows.cons {q : Parser} {ch : UInt8} {rest : Bytes} {given given' ev : List Event}
    {r : Run} (h : Follows (execute q [ch]).parser rest given' r)
    (hglue : glue (ev ++ given') = glue (given ++ (execute q [ch]).events)) :
    Follows q (ch :: rest) given { r with events := ev ++ r.events } where
  ok := h.ok
  done := h.done
  left := h.left
  parser := h.parser
  events := by
    dsimp only
    rw [List.append_assoc, glue_append_congr rfl h.events, ← List.append_assoc,
      glue_append_congr hglue rfl, List.append_assoc]
    rfl

theorem Follows.single {q : Parser} {ch : UInt8} {given : List Event} {p : Parser}
    (hp : Live 0 p) {m : Marks DataKind UInt8} (hm : Marked p.state m)
    (h : Round q ch m given (iterate p ch [])) : Follows q [ch] given (loop 1 p m [ch]) := by
  have hmove := sound_iterate hp ch []
  have hrest := rest_iterate hp h.ok
  have hevents := h.events
  simp only [loop, hrest]
  cases hout : (iterate p ch []).outcome with
  | next =>
    refine ⟨.inl rfl, rfl, by simp, h.parser, ?_⟩
    simpa [bytewise, feed] using hevents
  | exit =>
    have hmarked := hm.run (hmove.keeps h.ok)
    rw [Marked, (hmove.left hout).2] at hmarked
    refine ⟨.inr rfl, rfl, fun _ => hmarked.eq_none, h.parser, ?_⟩
    · simpa [bytewise, feed] using hevents
  | error => exact absurd hout h.ok
  | abort => exact absurd hout hmove.runs

theorem loop_longer {p p' : Parser} (hp : Live 0 p') {m : Marks DataKind UInt8} {ch c : UInt8}
    {rest : Bytes} {acts : List Action}
    (h : Longer acts (iterate p ch (c :: rest)) (iterate p' c rest)) :
    loop (ch :: c :: rest).length p m (ch :: c :: rest) =
      loop (c :: rest).length p' (m.run acts).1 (c :: rest) := by
  have hmove := sound_iterate hp c rest
  simp only [List.length_cons, loop, h.outcome, h.parser, h.rest, h.run]
  cases hout : (iterate p' c rest).outcome with
  | next =>
    have hne : (iterate p' c rest).outcome ≠ .error := by simp [hout]
    have hshort := hmove.shorter hne
    rw [List.length_cons] at hshort
    have hle : (iterate p' c rest).rest.length ≤ rest.length := by omega
    dsimp only
    rw [loop_rounds (hmove.live hne) _ (hle.trans (Nat.le_succ _)) hle]
  | exit | error | abort => rfl

theorem follows_loop {p q : Parser} (hpq : Fewer p q) (hq : Live 0 q) {m : Marks DataKind UInt8}
    (hm : Marked p.state m) {given : List Event} (hgiven : Pending p.state m given) {data : Bytes}
    (hne : data ≠ []) (hplain : Plain q data) :
    Follows q data given (loop data.length p m data) := by
  induction data generalizing p q m given with
  | nil => exact absurd rfl hne
  | cons ch rest ih =>
    obtain ⟨hok, hupgrade, hplain⟩ := hplain
    have hp := hpq.live hq
    have hround := round_of_fewer hpq hq hm hgiven hok
    have hmove := sound_iterate hp ch []
    have hm' := hm.run (hmove.keeps hround.ok)
    cases rest with
    | nil => exact .single hp hm hround
    | cons c rest =>
      have hnext : (iterate p ch []).outcome = .next := by
        cases hout : (iterate p ch []).outcome with
        | next => rfl
        | exit =>
          have := hround.upgrade hout
          rw [hupgrade (List.cons_ne_nil _ _)] at this
          cases this
        | error => exact absurd hout hround.ok
        | abort => exact absurd hout hmove.runs
      rcases iterate_cons hp hnext c rest with hsame | ⟨⟨p', hp', hlonger⟩, hnone⟩
      · -- the round ends behind `ch`
        have := ih hround.parser hround.live hm' (.inl rfl) (List.cons_ne_nil _ _) hplain
        have hloop : loop (ch :: c :: rest).length p m (ch :: c :: rest) =
            let r := loop (c :: rest).length (iterate p ch []).parser
              (m.run (iterate p ch []).acts).1 (c :: rest)
            { r with events := (m.run (iterate p ch []).acts).2 ++ r.events } := by
          rw [List.length_cons, loop, hsame]
          dsimp only
          rw [hnext]
        rw [hloop]
        exact this.cons hround.events
      · -- the round goes on with `c`
        have hfewer := hp'.trans hround.parser
        have hrest := ih hfewer hround.live (by rw [hp'.state]; exact hm') (.inl rfl)
          (List.cons_ne_nil _ _) hplain
        have hgoes : (iterate p' c rest).outcome ≠ .error := by
          intro herror
          have := hrest.ok
          simp only [List.length_cons, loop, herror] at this
          rcases this with h | h <;> cases h
        rw [loop_longer (hfewer.live hround.live) (hlonger hgoes)]
        have hglue := hround.events
        rw [hnone m] at hglue
        exact hrest.cons hglue

/-! ## Calls -/

/-- A call with a whole buffer, and the calls with its bytes. -/
structure Whole (q : Parser) (data : Bytes) (r : Result) : Prop where
  live : Live 0 r.parser
  consumed : r.consumed = data.length
  parser : Fewer r.parser (feed q (bytewise data)).1
  events : glue r.events = glue (feed q (bytewise data)).2

theorem execute_whole {p q : Parser} (hpq : Fewer p q) (hq : Live 0 q) {data : Bytes}
    (hne : data ≠ []) (hplain : Plain q data) : Whole q data (execute p data) := by
  have hp := hpq.live hq
  have hmarked := marked_startMarks p.state
  have hsound := sound_loop hp hmarked (Nat.le_refl data.length)
  have hfollows := follows_loop hpq hq hmarked (.inr ⟨rfl, rfl⟩) hne hplain
  have hevents := hfollows.events
  rw [List.nil_append] at hevents
  rw [execute, if_neg (by simp [hp.errno]), if_neg hne, finish]
  rcases hfollows.ok with hout | hout
  · rw [hout]
    dsimp only
    rw [if_pos ((hsound.marked hout).length_filter nodup_kinds)]
    exact ⟨hsound.live (by simp [hout]), rfl, hfollows.parser, hevents⟩
  · rw [hfollows.left hout, flush_none, List.append_nil] at hevents
    rw [hout]
    refine ⟨hsound.live (by simp [hout]), ?_, hfollows.parser, hevents⟩
    rw [hfollows.done]
    rfl

theorem bytewise_append (bs cs : Bytes) : bytewise (bs ++ cs) = bytewise bs ++ bytewise cs :=
  List.map_append

theorem calls_whole {p q : Parser} (hpq : Fewer p q) (hq : Live 0 q) {ds : List Bytes}
    (hne : ∀ d ∈ ds, d ≠ []) (hplain : Plain q ds.flatten) :
    List.Forall₂ (fun d r => r.parser.httpErrno = .ok ∧ r.consumed = d.length) ds (calls p ds) ∧
      Fewer (feed p ds).1 (feed q (bytewise ds.flatten)).1 ∧
      glue (feed p ds).2 = glue (feed q (bytewise ds.flatten)).2 := by
  induction ds generalizing p q with
  | nil => exact ⟨.nil, hpq, rfl⟩
  | cons d ds ih =>
    rw [List.flatten_cons] at hplain ⊢
    obtain ⟨hd, hds⟩ := hplain.append
    have hone := execute_whole hpq hq (hne d List.mem_cons_self) hd
    obtain ⟨hcalls, hparser, hevents⟩ :=
      ih hone.parser (hd.live hq) (fun e he => hne e (List.mem_cons_of_mem d he)) hds
    rw [bytewise_append, feed_append]
    exact ⟨.cons ⟨hone.live.errno, hone.consumed⟩ hcalls, hparser,
      glue_append_congr hone.events hevents⟩

end Third
end CoSocket
