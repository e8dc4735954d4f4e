import CoSocket.Net.TimeoutSet

/-!
# Net.Deadlines

What a timeout set is for: a finite map from coroutine ids to real deadlines, of which `GetExpired`
should report the earliest one once its time has come. `deadlines` reads that map off a history of
`Insert` and `Delete` calls, and `Represents` says a `TimeoutSet` stores it; `run_represents` is
the refinement.

`GetExpired` looks only at the first entry in the code's order, which compares seconds before
microseconds. That order is the order of time as long as no entry carries more than a second of
microseconds, and one entry decides: `getExpired_real_time_iff` says the reading is right at every
clock value exactly when the first entry stays within the second.

`GetNeareastTimeGap` subtracts the first deadline from the clock and not the clock from it, so
`Run` waits longest when a coroutine is overdue: `pollTimeout_iff` says at which readings the wait
is the one to the earliest deadline all the same.
-/

namespace CoSocket
namespace Net

open Base

inductive TimeoutOp where
  | insert (coId timeoutMs : Int) (now : Timestamp)
  | delete (coId : Int)
deriving Repr

/-- The real deadline of each id, in microseconds. -/
abbrev Deadlines := Int → Option Int

namespace TimeoutOp

/-- The meaning of one operation: the deadline is the time of the call plus the timeout. -/
def deadlines (D : Deadlines) : TimeoutOp → Deadlines
  | .insert coId timeoutMs now =>
    fun id => if id = coId then some (now.micros + 1000 * timeoutMs) else D id
  | .delete coId => fun id => if id = coId then none else D id

/-- What the code does for one operation. -/
def apply (t : TimeoutSet) : TimeoutOp → TimeoutSet
  | .insert coId timeoutMs now => t.insert coId timeoutMs now
  | .delete coId => t.delete coId

/-- An id is inserted only while it has no deadline, with a positive timeout, at a clock reading. -/
def Legal (D : Deadlines) : TimeoutOp → Prop
  | .insert coId timeoutMs now => D coId = none ∧ 0 ≤ coId ∧ 0 < timeoutMs ∧ now.Normal
  | .delete _ => True

instance (D : Deadlines) : (op : TimeoutOp) → Decidable (op.Legal D)
  | .insert .. => inferInstanceAs (Decidable (_ ∧ _ ∧ _ ∧ _))
  | .delete _ => inferInstanceAs (Decidable True)

end TimeoutOp

/-- The deadlines after a history of operations. -/
def deadlines (ops : List TimeoutOp) : Deadlines := ops.foldl TimeoutOp.deadlines fun _ => none

/-- The timeout set after a history of operations. -/
def TimeoutSet.run (ops : List TimeoutOp) : TimeoutSet := ops.foldl TimeoutOp.apply {}

/-- Every operation is legal where it is made, from the deadlines `D` on. -/
def LegalFrom : Deadlines → List TimeoutOp → Prop
  | _, [] => True
  | D, op :: ops => op.Legal D ∧ LegalFrom (op.deadlines D) ops

instance : (D : Deadlines) → (ops : List TimeoutOp) → Decidable (LegalFrom D ops)
  | _, [] => inferInstanceAs (Decidable True)
  | D, op :: ops =>
    have := instDecidableLegalFrom (op.deadlines D) ops
    inferInstanceAs (Decidable (_ ∧ _))

/-- A history that starts with an empty set. -/
def LegalHistory (ops : List TimeoutOp) : Prop := LegalFrom (fun _ => none) ops

instance (ops : List TimeoutOp) : Decidable (LegalHistory ops) :=
  inferInstanceAs (Decidable (LegalFrom _ _))

/-- `t` stores the deadlines `D`, with ids and microseconds as `Insert` produces them. -/
structure Represents (t : TimeoutSet) (D : Deadlines) : Prop where
  wf : t.Wf
  stored : ∀ id d, D id = some d ↔ ∃ e ∈ t.timeoutSet, e.coId = id ∧ e.timestamp.micros = d
  bounds : ∀ e ∈ t.timeoutSet,
    0 ≤ e.coId ∧ 0 ≤ e.timestamp.tvUsec ∧ e.timestamp.tvUsec < 2000000

theorem represents_empty : Represents {} fun _ => none where
  wf := TimeoutSet.wf_empty
  stored id d := by simp
  bounds e he := by simp at he

theorem Represents.fresh {t : TimeoutSet} {D : Deadlines} (h : Represents t D) {coId : Int}
    (hn : D coId = none) : t.Fresh coId := by
  intro e he hk
  have := (h.stored coId e.timestamp.micros).mpr ⟨e, he, hk, rfl⟩
  rw [hn] at this
  cases this

/-- One operation keeps the representation. -/
theorem apply_represents {t : TimeoutSet} {D : Deadlines} (h : Represents t D) {op : TimeoutOp}
    (hop : op.Legal D) : Represents (op.apply t) (op.deadlines D) := by
  cases op with
  | insert coId timeoutMs now =>
    obtain ⟨hnone, hid, hms, hnow⟩ := hop
    have hf := h.fresh hnone
    refine ⟨TimeoutSet.insert_wf h.wf hf, ?_, ?_⟩
    · intro id d
      have hd := Timestamp.addMillisecond_micros now timeoutMs
      simp only [TimeoutOp.apply, TimeoutOp.deadlines, TimeoutSet.mem_insert_iff hf]
      by_cases hk : id = coId
      · subst hk
        simp only [if_pos, Option.some.injEq]
        constructor
        · rintro rfl
          exact ⟨_, .inl rfl, rfl, hd⟩
        · rintro ⟨e, rfl | he, hek, rfl⟩
          · exact hd.symm
          · exact absurd hek (hf e he)
      · rw [if_neg hk, h.stored]
        constructor
        · rintro ⟨e, he, hek, hed⟩
          exact ⟨e, .inr he, hek, hed⟩
        · rintro ⟨e, rfl | he, hek, hed⟩
          · exact absurd hek.symm hk
          · exact ⟨e, he, hek, hed⟩
    · intro e he
      rcases (TimeoutSet.mem_insert_iff hf).mp he with rfl | he
      · exact ⟨hid, Timestamp.addMillisecond_usec_bounds hnow hms⟩
      · exact h.bounds e he
  | delete coId =>
    refine ⟨TimeoutSet.delete_wf h.wf coId, ?_, ?_⟩
    · intro id d
      simp only [TimeoutOp.apply, TimeoutOp.deadlines, TimeoutSet.mem_delete_iff h.wf]
      by_cases hk : id = coId
      · subst hk
        simp only [if_pos, reduceCtorEq, false_iff]
        rintro ⟨e, ⟨_, hne⟩, hek, _⟩
        exact hne hek
      · rw [if_neg hk, h.stored]
        constructor
        · rintro ⟨e, he, hek, hed⟩
          exact ⟨e, ⟨he, hek ▸ hk⟩, hek, hed⟩
        · rintro ⟨e, ⟨he, _⟩, hek, hed⟩
          exact ⟨e, he, hek, hed⟩
    · intro e he
      exact h.bounds e ((TimeoutSet.mem_delete_iff h.wf).mp he).1

theorem foldl_represents {ops : List TimeoutOp} :
    ∀ {t : TimeoutSet} {D : Deadlines}, Represents t D → LegalFrom D ops →
      Represents (ops.foldl TimeoutOp.apply t) (ops.foldl TimeoutOp.deadlines D) := by
  induction ops with
  | nil => intro t D h _; exact h
  | cons op ops ih =>
    intro t D h hl
    exact ih (apply_represents h hl.1) hl.2

/-- After any legal history the timeout set stores the history's deadlines. -/
theorem run_represents {ops : List TimeoutOp} (h : LegalHistory ops) :
    Represents (TimeoutSet.run ops) (deadlines ops) :=
  foldl_represents represents_empty h

/-! ## Reading the first entry -/

theorem TimeoutSet.first_eq_some_iff {t : TimeoutSet} {e : CoIdTimeout} :
    t.first = some e ↔ e ∈ t.timeoutSet ∧ ∀ e' ∈ t.timeoutSet, ¬ e'.less e = true := by
  rw [TimeoutSet.first, ← Std.ExtTreeSet.min?_eq_head?_toList,
    Std.ExtTreeSet.min?_eq_some_iff_mem_and_forall]
  simp only [CoIdTimeout.cmp_isLE_iff]

theorem TimeoutSet.first_eq_none_iff {t : TimeoutSet} :
    t.first = none ↔ ∀ e, e ∉ t.timeoutSet := by
  rw [TimeoutSet.first, List.head?_eq_none_iff, List.eq_nil_iff_forall_not_mem]
  simp only [Std.ExtTreeSet.mem_toList]

/-- `GetExpired` reads real time at `now`: the id it reports is due and no deadline is earlier, and
it reports none only while no deadline has come. -/
structure ReadsRealTime (t : TimeoutSet) (D : Deadlines) (now : Timestamp) : Prop where
  due : t.getExpired now ≠ -1 →
    ∃ d, D (t.getExpired now) = some d ∧ d ≤ now.micros ∧ ∀ id d', D id = some d' → d ≤ d'
  none_due : t.getExpired now = -1 → ∀ id d, D id = some d → now.micros < d

/-- No deadline is missed: when the first entry is later than `now`, so is every deadline. -/
theorem not_expired_later {t : TimeoutSet} {D : Deadlines} (h : Represents t D) {now : Timestamp}
    (hnow : now.Normal) (hx : t.getExpired now = -1) :
    ∀ id d, D id = some d → now.micros < d := by
  intro id d hd
  obtain ⟨e, he, -, rfl⟩ := (h.stored id d).mp hd
  obtain ⟨hn0, hn1⟩ := hnow
  have hb := h.bounds e he
  cases hf : t.first with
  | none => exact absurd he (TimeoutSet.first_eq_none_iff.mp hf e)
  | some m =>
    obtain ⟨hm, hmin⟩ := TimeoutSet.first_eq_some_iff.mp hf
    have hgt : m.timestamp.greater now = true := by
      by_contra hc
      have hid := (h.bounds m hm).1
      simp only [TimeoutSet.getExpired, hf, hc, if_false] at hx
      omega
    have hle := hmin e he
    rw [Timestamp.greater_iff] at hgt
    rw [CoIdTimeout.less_iff] at hle
    simp only [Timestamp.micros]
    omega

/-- The first entry in the code's order is the earliest one when its microseconds stay within the
second (one million itself is still the start of the next one). -/
theorem first_earliest {t : TimeoutSet} {D : Deadlines} (h : Represents t D) {e : CoIdTimeout}
    (hf : t.first = some e) (hu : e.timestamp.tvUsec ≤ 1000000) :
    ∀ id d, D id = some d → e.timestamp.micros ≤ d := by
  intro id d hd
  obtain ⟨e', he', -, rfl⟩ := (h.stored id d).mp hd
  have hle := (TimeoutSet.first_eq_some_iff.mp hf).2 e' he'
  have hb := h.bounds e' he'
  rw [CoIdTimeout.less_iff] at hle
  simp only [Timestamp.micros]
  omega

theorem getExpired_of_first {t : TimeoutSet} {e : CoIdTimeout} {now : Timestamp}
    (hf : t.first = some e) (hgt : ¬ e.timestamp.greater now = true) :
    t.getExpired now = e.coId := by
  simp [TimeoutSet.getExpired, hf, hgt]

/-- An entry that carries more than a second of microseconds counts as expired at the start of the
next second, when its time is still to come. -/
theorem not_readsRealTime {t : TimeoutSet} {D : Deadlines} (h : Represents t D) {e : CoIdTimeout}
    (hf : t.first = some e) (hu : 1000000 < e.timestamp.tvUsec) :
    ¬ ReadsRealTime t D ⟨e.timestamp.tvSec + 1, 0⟩ := by
  intro hread
  obtain ⟨he, -⟩ := TimeoutSet.first_eq_some_iff.mp hf
  have hgt : ¬ e.timestamp.greater ⟨e.timestamp.tvSec + 1, 0⟩ = true := by
    rw [Timestamp.greater_iff]
    dsimp only
    omega
  have hid := (h.bounds e he).1
  have hx := getExpired_of_first hf hgt
  obtain ⟨d, hd, hle, -⟩ := hread.due (by rw [hx]; omega)
  have hself := (h.stored e.coId e.timestamp.micros).mpr ⟨e, he, rfl, rfl⟩
  rw [hx, hself] at hd
  cases hd
  simp only [Timestamp.micros] at hle
  omega

/-- What is reported is due and the earliest, when the first entry carries no more than that. -/
theorem readsRealTime {t : TimeoutSet} {D : Deadlines} (h : Represents t D)
    (hu : ∀ e, t.first = some e → e.timestamp.tvUsec ≤ 1000000) {now : Timestamp}
    (hnow : now.Normal) : ReadsRealTime t D now := by
  refine ⟨fun hne => ?_, not_expired_later h hnow⟩
  cases hf : t.first with
  | none => simp [TimeoutSet.getExpired, hf] at hne
  | some e =>
    obtain ⟨he, -⟩ := TimeoutSet.first_eq_some_iff.mp hf
    obtain ⟨hn0, hn1⟩ := hnow
    have hgt : ¬ e.timestamp.greater now = true := by
      intro hc
      simp [TimeoutSet.getExpired, hf, hc] at hne
    have hle := hu e hf
    rw [getExpired_of_first hf hgt]
    refine ⟨e.timestamp.micros, (h.stored _ _).mpr ⟨e, he, rfl, rfl⟩, ?_,
      first_earliest h hf hle⟩
    have hb := h.bounds e he
    rw [Timestamp.greater_iff] at hgt
    simp only [Timestamp.micros]
    omega

/-- **`GetExpired` against real time.** After any legal history, `GetExpired` reads real time at
every clock value if and only if the entry at the start of the set carries at most a second of
microseconds. -/
theorem getExpired_real_time_iff (ops : List TimeoutOp) (h : LegalHistory ops) :
    (∀ now : Timestamp, now.Normal →
      ReadsRealTime (TimeoutSet.run ops) (deadlines ops) now) ↔
    ∀ e, (TimeoutSet.run ops).first = some e → e.timestamp.tvUsec ≤ 1000000 := by
  have hrep := run_represents h
  constructor
  · intro hread e hf
    by_contra hu
    exact not_readsRealTime hrep hf (by omega) (hread _ ⟨le_rfl, by simp⟩)
  · intro hu now hnow
    exact readsRealTime hrep hu hnow

/-- Two timed waits, one of them taken back: the one left stays within its second. -/
theorem getExpired_real_time_two_waits :
    LegalHistory [.insert 3 1500 ⟨1700000000, 200000⟩, .insert 4 100 ⟨1700000000, 300000⟩,
      .delete 3] ∧
    ∀ now : Timestamp, now.Normal →
      ReadsRealTime
        (TimeoutSet.run [.insert 3 1500 ⟨1700000000, 200000⟩,
          .insert 4 100 ⟨1700000000, 300000⟩, .delete 3])
        (deadlines [.insert 3 1500 ⟨1700000000, 200000⟩, .insert 4 100 ⟨1700000000, 300000⟩,
          .delete 3]) now := by
  refine ⟨by decide, (getExpired_real_time_iff _ (by decide)).mpr fun e he => ?_⟩
  have hf : (TimeoutSet.run [.insert 3 1500 ⟨1700000000, 200000⟩,
      .insert 4 100 ⟨1700000000, 300000⟩, .delete 3]).first =
        some ⟨4, ⟨1700000000, 400000⟩⟩ := by decide
  rw [hf] at he
  cases he
  decide

/-- A timeout of 500 ms set at 0.6 s past the second is reported at the turn of the second,
100 ms before its deadline. -/
theorem getExpired_early :
    LegalHistory [.insert 0 500 ⟨1700000000, 600000⟩] ∧
    (⟨1700000001, 0⟩ : Timestamp).Normal ∧
    (TimeoutSet.run [.insert 0 500 ⟨1700000000, 600000⟩]).getExpired ⟨1700000001, 0⟩ = 0 ∧
    deadlines [.insert 0 500 ⟨1700000000, 600000⟩] 0 = some 1700000001100000 ∧
    ¬ ReadsRealTime (TimeoutSet.run [.insert 0 500 ⟨1700000000, 600000⟩])
      (deadlines [.insert 0 500 ⟨1700000000, 600000⟩]) ⟨1700000001, 0⟩ := by
  have hx : (TimeoutSet.run [.insert 0 500 ⟨1700000000, 600000⟩]).getExpired
      ⟨1700000001, 0⟩ = 0 := by decide
  have hd : deadlines [.insert 0 500 ⟨1700000000, 600000⟩] 0 = some 1700000001100000 := by decide
  refine ⟨by decide, by decide, hx, hd, fun h => ?_⟩
  obtain ⟨d, hd', hle, -⟩ := h.due (by rw [hx]; decide)
  rw [hx, hd] at hd'
  cases hd'
  revert hle
  decide

/-! ## The wait between two rounds -/

namespace TimeoutSet

/-- What `Run` passes to `Poll`: the sum narrowed to the `int` it takes. -/
def pollTimeout (t : TimeoutSet) (now : Timestamp) : Int :=
  (t.getNeareastTimeGap now + 10).bmod (2 ^ 32)

/-- `d` is the earliest of the stored deadlines, in microseconds. -/
def Earliest (t : TimeoutSet) (d : Int) : Prop :=
  (∃ e ∈ t.timeoutSet, e.timestamp.micros = d) ∧ ∀ e ∈ t.timeoutSet, d ≤ e.timestamp.micros

theorem earliest_of_toList {t : TimeoutSet} {e : CoIdTimeout} (h : t.timeoutSet.toList = [e]) :
    t.Earliest e.timestamp.micros := by
  constructor
  · exact ⟨e, by rw [← Std.ExtTreeSet.mem_toList, h]; exact List.mem_singleton_self e, rfl⟩
  · intro e' he'
    rw [← Std.ExtTreeSet.mem_toList, h, List.mem_singleton] at he'
    rw [he']

/-- The wait `Run` is after: whole milliseconds from `now` to the deadline `d`, and none once it
has passed, plus 10. -/
def waitUntil (d : Int) (now : Timestamp) : Int := max 0 ((d - now.micros) / 1000) + 10

/-- `deadline` passed at least `ms` milliseconds before `now`, where a difference that is not whole
counts as the one below it or, when the microseconds of `now` are the fewer, as the one above. -/
def OverdueBy (deadline now : Timestamp) (ms : Int) : Prop :=
  if deadline.tvUsec ≤ now.tvUsec then deadline.micros + 1000 * ms ≤ now.micros
  else deadline.micros + 1000 * (ms - 1) < now.micros

instance (deadline now : Timestamp) (ms : Int) : Decidable (OverdueBy deadline now ms) :=
  inferInstanceAs (Decidable (ite _ _ _))

theorem le_diff_iff (deadline now : Timestamp) (ms : Int) :
    ms ≤ now.diff deadline ↔ OverdueBy deadline now ms := by
  simp only [Timestamp.diff, OverdueBy, Timestamp.micros]
  split
  · rename_i h
    rw [Int.tdiv_eq_ediv_of_nonneg (by omega)]
    omega
  · rename_i h
    rw [show now.tvUsec - deadline.tvUsec = -(deadline.tvUsec - now.tvUsec) by omega,
      Int.neg_tdiv, Int.tdiv_eq_ediv_of_nonneg (by omega)]
    omega

theorem bmod_add_ten_eq_ten {gap : Int} :
    (gap + 10).bmod (2 ^ 32) = 10 ↔ (2 ^ 32 : Int) ∣ gap := by
  rw [Int.bmod_def]
  omega

theorem not_overdueBy_of_ahead {deadline now : Timestamp}
    (h : now.micros + 1000 ≤ deadline.micros) : ¬ OverdueBy deadline now 0 := by
  unfold OverdueBy
  split
  · omega
  · omega

theorem getNeareastTimeGap_of_first {t : TimeoutSet} {f : CoIdTimeout} {now : Timestamp}
    (hf : t.first = some f) : t.getNeareastTimeGap now = max 0 (now.diff f.timestamp) := by
  simp only [getNeareastTimeGap, hf]
  split
  · omega
  · omega

/-- The gap is a multiple of what an `int` can tell apart. -/
theorem dvd_gap_iff {t : TimeoutSet} {f : CoIdTimeout} {now : Timestamp}
    (hf : t.first = some f) :
    (2 ^ 32 : Int) ∣ t.getNeareastTimeGap now ↔
      ¬ OverdueBy f.timestamp now 1 ∨
        ∃ k : Nat, 0 < k ∧ OverdueBy f.timestamp now (2 ^ 32 * k) ∧
          ¬ OverdueBy f.timestamp now (2 ^ 32 * k + 1) := by
  rw [getNeareastTimeGap_of_first hf]
  simp only [← le_diff_iff]
  constructor
  · rintro ⟨k, hk⟩
    by_cases hpos : 1 ≤ now.diff f.timestamp
    · refine .inr ⟨k.toNat, ?_, ?_⟩
      · omega
      · omega
    · exact .inl hpos
  · rintro (hle | ⟨k, hk, heq⟩)
    · exact ⟨0, by omega⟩
    · exact ⟨k, by omega⟩

/-- **The wait of `Run`.** What is passed to `Poll` is the time to the earliest deadline plus 10 if
and only if that deadline is less than a millisecond ahead or has passed, and the first entry of
the set is not a millisecond overdue, or by a multiple of `2 ^ 32` of them. -/
theorem pollTimeout_iff (t : TimeoutSet) (now : Timestamp) (f : CoIdTimeout) (d : Int)
    (hf : t.first = some f) (hd : t.Earliest d) :
    t.pollTimeout now = waitUntil d now ↔
      d < now.micros + 1000 ∧
        (¬ OverdueBy f.timestamp now 1 ∨
          ∃ k : Nat, 0 < k ∧ OverdueBy f.timestamp now (2 ^ 32 * k) ∧
            ¬ OverdueBy f.timestamp now (2 ^ 32 * k + 1)) := by
  rw [← dvd_gap_iff hf, ← bmod_add_ten_eq_ten]
  unfold pollTimeout waitUntil
  by_cases hnear : d < now.micros + 1000
  · rw [max_eq_left (by omega), Int.zero_add]
    exact (and_iff_right hnear).symm
  · -- far ahead, the first entry is ahead too and the gap is cut off at zero
    have hle := hd.2 f (first_eq_some_iff.mp hf).1
    have hahead : now.diff f.timestamp < 0 := by
      have hnot : ¬ OverdueBy f.timestamp now 0 := not_overdueBy_of_ahead (by omega)
      rw [← le_diff_iff] at hnot
      omega
    rw [getNeareastTimeGap_of_first hf, max_eq_left hahead.le]
    rw [show ((0 : Int) + 10).bmod (2 ^ 32) = 10 by decide]
    omega

/-- The clock has just reached the only deadline. -/
theorem pollTimeout_due :
    (run [.insert 3 500 ⟨1700000000, 200000⟩]).Earliest 1700000000700000 ∧
    (run [.insert 3 500 ⟨1700000000, 200000⟩]).pollTimeout ⟨1700000000, 700000⟩ =
      waitUntil 1700000000700000 ⟨1700000000, 700000⟩ := by
  have hd : (run [.insert 3 500 ⟨1700000000, 200000⟩]).Earliest 1700000000700000 :=
    earliest_of_toList (e := ⟨3, ⟨1700000000, 700000⟩⟩) (by decide)
  exact ⟨hd, (pollTimeout_iff _ _ ⟨3, ⟨1700000000, 700000⟩⟩ _ (by decide) hd).mpr
    ⟨by decide, .inl (by decide)⟩⟩

/-- The deadline is 500 ms ahead and the wait is 10 ms; once it is 500 ms overdue, the wait is
510 ms. -/
theorem pollTimeout_reversed :
    (run [.insert 3 500 ⟨1700000000, 200000⟩]).Earliest 1700000000700000 ∧
    (run [.insert 3 500 ⟨1700000000, 200000⟩]).pollTimeout ⟨1700000000, 200000⟩ = 10 ∧
    waitUntil 1700000000700000 ⟨1700000000, 200000⟩ = 510 ∧
    (run [.insert 3 500 ⟨1700000000, 200000⟩]).pollTimeout ⟨1700000001, 200000⟩ = 510 ∧
    waitUntil 1700000000700000 ⟨1700000001, 200000⟩ = 10 :=
  ⟨earliest_of_toList (e := ⟨3, ⟨1700000000, 700000⟩⟩) (by decide), by decide, by decide,
    by decide, by decide⟩

end TimeoutSet

end Net
end CoSocket
