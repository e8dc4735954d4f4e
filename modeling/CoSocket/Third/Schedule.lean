import CoSocket.Net.Table
import CoSocket.Third.Coroutine

/-!
# Third.Schedule

The coroutines of `Net.State`, a map from ids to coroutines, and the table of `coroutine.c`. The
functions of `Net.Scheduler` take any free id and know nothing of stacks or of the size of the table
(`CoMove`); each run of `coroutine.c` is one of theirs (`schedule_refines`).
-/

namespace CoSocket
namespace Third

open Base Lts Net

/-- What the map of coroutines shows of the table. -/
structure Represents (t : Schedule CoFunction) (s : St) : Prop where
  running : s.running = t.running
  co : ∀ id : Int, (s.co[id]?).map (fun c => (c.func, c.status)) =
    if 0 ≤ id then (t.lookup id.toNat).map (fun c => (c.func, c.status)) else none

/-- A call of `coroutine.c` as `Net.Scheduler` has it. -/
inductive CoMove (s : St) : Schedule.Act CoFunction → St → Prop where
  | new {func : CoFunction} {id : Int} (h : s.freeId id = true) :
      CoMove s (.new func) (s.coroutineNew id func)
  | resume {id : Int} {s' : St} (h : s.coroutineResume id = .next s') : CoMove s (.resume id) s'
  | work {stack : Bytes} (h : 0 ≤ s.running) : CoMove s (.work stack) s
  | yield {size : Nat} (w : Wait) (h : 0 ≤ s.running) : CoMove s (.yield size) (s.coroutineYield w)
  | finish (h : 0 ≤ s.running) : CoMove s .finish s.coroutineExit

inductive CoRun (s₀ : St) : List (Schedule.Act CoFunction) → St → Prop where
  | nil : CoRun s₀ [] s₀
  | snoc {as : List (Schedule.Act CoFunction)} {a : Schedule.Act CoFunction} {s s' : St}
      (h : CoRun s₀ as s) (hm : CoMove s a s') : CoRun s₀ (as ++ [a]) s'

theorem represents_open (stack : Bytes) :
    Represents (Schedule.coroutineOpen CoFunction stack) {} where
  running := rfl
  co := by
    intro id
    have hnone : (Schedule.coroutineOpen CoFunction stack).lookup id.toNat = none := by
      rw [Schedule.lookup, Schedule.coroutineOpen, List.getElem?_replicate]
      split <;> rfl
    rw [hnone]
    simp

theorem Represents.insert {t t' : Schedule CoFunction} {s s' : St} (h : Represents t s) {id : Nat}
    {c : Coroutine CoFunction} {d : Net.Coroutine} (hlt : id < t.co.length)
    (ht : t'.co = t.co.set id (some c)) (hs : s'.co = s.co.insert (id : Int) d)
    (hsame : (d.func, d.status) = (c.func, c.status)) (hr : s'.running = t'.running) :
    Represents t' s' where
  running := hr
  co := by
    intro j
    rw [hs, getElem?_insert_co, Schedule.lookup_set hlt ht]
    by_cases hj : (id : Int) = j
    · subst hj
      rw [if_pos rfl, if_pos (Int.natCast_nonneg id), if_pos (Int.toNat_natCast id)]
      exact congrArg some hsame
    · rw [if_neg hj, h.co]
      by_cases hge : 0 ≤ j
      · rw [if_pos hge, if_pos hge, if_neg (by omega)]
      · rw [if_neg hge, if_neg hge]

theorem Represents.of_lookup {t : Schedule CoFunction} {s : St} (h : Represents t s) {id : Nat}
    {c : Coroutine CoFunction} (hc : t.lookup id = some c) :
    ∃ d, s.co[(id : Int)]? = some d ∧ d.func = c.func ∧ d.status = c.status := by
  have hco := h.co id
  rw [if_pos (Int.natCast_nonneg id), Int.toNat_natCast, hc] at hco
  obtain ⟨d, hd, heq⟩ := Option.map_eq_some_iff.mp hco
  exact ⟨d, hd, congrArg Prod.fst heq, congrArg Prod.snd heq⟩

/-- Each call of `coroutine.c` that does not fail is a call of the map of coroutines. -/
theorem represents_step {t t' : Schedule CoFunction} {s : St} (ht : t.Inv) (h : Represents t s)
    {a : Schedule.Act CoFunction} (hstep : t.step a = .next t') :
    ∃ s', CoMove s a s' ∧ Represents t' s' := by
  cases a with
  | new func =>
    obtain ⟨id, g, hnew, hg, hid, hcases, hnone⟩ := Schedule.coroutineNew_cases ht func
    rw [Schedule.step, hnew] at hstep
    cases hstep
    have hgs : Represents g s := by
      rcases hcases with rfl | rfl
      · exact h
      · exact ⟨h.running, fun j => by rw [Schedule.lookup_grown]; exact h.co j⟩
    have hfree : s.freeId id = true := by
      have hco := h.co id
      rw [if_pos (Int.natCast_nonneg id), Int.toNat_natCast, hnone] at hco
      rw [Option.map_none, Option.map_eq_none_iff] at hco
      rw [St.freeId, Std.ExtTreeMap.contains_eq_isSome_getElem?, hco]
      simp
    refine ⟨_, .new hfree, hgs.insert (by rw [hg.length]; exact hid) rfl rfl rfl ?_⟩
    exact hgs.running
  | resume id =>
    by_cases hfault : Schedule.Faulty t (.resume id)
    · rw [Schedule.step_faulty ht hfault] at hstep
      cases hstep
    have hres := Schedule.coroutineResume_cases ht hfault
    simp only [Schedule.Faulty, not_or, not_not, Int.not_lt] at hfault
    obtain ⟨hidle, hge, -⟩ := hfault
    have hid : ((id.toNat : Nat) : Int) = id := Int.toNat_of_nonneg hge
    have hguard : ¬(s.running ≠ -1 ∨ id < 0) := by
      rw [h.running]
      omega
    rcases hres with ⟨hnone, hres⟩ | ⟨c, stack, hc, -, -, hres⟩
    · rw [Schedule.step, hres] at hstep
      cases hstep
      refine ⟨s, .resume ?_, h⟩
      have hco := h.co id
      rw [if_pos hge, hnone, Option.map_none, Option.map_eq_none_iff] at hco
      rw [St.coroutineResume, if_neg hguard, hco]
    · rw [Schedule.step, hres] at hstep
      cases hstep
      obtain ⟨d, hd, hfunc, hstatus⟩ := h.of_lookup hc
      rw [hid] at hd
      have hnot : d.status ≠ .COROUTINE_RUNNING := by
        intro hrun
        have := (ht.status _ c hc).mp (hstatus ▸ hrun)
        omega
      refine ⟨{ s with
        running := id
        co := s.co.insert id { d with status := .COROUTINE_RUNNING } }, .resume ?_, ?_⟩
      · rw [St.coroutineResume, if_neg hguard, hd]
        dsimp only
        split
        · rfl
        · rfl
        · rename_i hrun
          exact absurd hrun hnot
      · have hinsert : s.co.insert id { d with status := .COROUTINE_RUNNING } =
            s.co.insert ((id.toNat : Nat) : Int) { d with status := .COROUTINE_RUNNING } := by
          rw [hid]
        refine h.insert (Schedule.lookup_lt hc) rfl hinsert ?_ rfl
        exact congrArg (·, Status.COROUTINE_RUNNING) hfunc
  | work stack =>
    rw [Schedule.step] at hstep
    split at hstep
    · rename_i hok
      cases hstep
      exact ⟨s, .work (by rw [h.running]; exact hok.1), h.running, h.co⟩
    · cases hstep
  | yield size =>
    by_cases hfault : Schedule.Faulty t (.yield size)
    · rw [Schedule.step_faulty ht hfault] at hstep
      cases hstep
    obtain ⟨id, c, hid, hc, -, hyield⟩ := Schedule.coroutineYield_cases ht hfault
    rw [Schedule.step, hyield] at hstep
    cases hstep
    obtain ⟨d, hd, hfunc, -⟩ := h.of_lookup hc
    have hrunning := h.running.trans hid
    -- which call the coroutine yields in is not known to the table
    refine ⟨_, .yield (.condition 0) (by omega), ?_⟩
    rw [St.coroutineYield, hrunning, hd]
    refine h.insert (Schedule.lookup_lt hc) rfl rfl ?_ rfl
    exact congrArg (·, Status.COROUTINE_SUSPEND) hfunc
  | finish =>
    rw [Schedule.step] at hstep
    split at hstep
    · rename_i hr
      cases hstep
      obtain ⟨id, hid, hsome⟩ := ht.running.resolve_left (by omega)
      obtain ⟨c, hc⟩ := Option.isSome_iff_exists.mp hsome
      have hnat : t.running.toNat = id := by omega
      have hrunning := h.running.trans hid
      refine ⟨_, .finish (by omega), rfl, fun j => ?_⟩
      rw [St.coroutineExit, hrunning, getElem?_erase_co,
        Schedule.lookup_set (t := t.mainfuncEnd) (Schedule.lookup_lt hc)
          (by rw [Schedule.mainfuncEnd, hnat])]
      by_cases hj : (id : Int) = j
      · subst hj
        rw [if_pos rfl, if_pos (Int.natCast_nonneg id), if_pos (Int.toNat_natCast id)]
        rfl
      · rw [if_neg hj, h.co]
        by_cases hge : 0 ≤ j
        · rw [if_pos hge, if_pos hge, if_neg (by omega)]
        · rw [if_neg hge, if_neg hge]
    · cases hstep

/-- Every run of `coroutine.c` is a run of the map of coroutines that the scheduler is modelled
with: the ids that `coroutine_new` picks are free there, and the same coroutines are there with the
same status. -/
theorem schedule_refines {stack : Bytes} (hstack : stack.length = STACK_SIZE)
    {as : List (Schedule.Act CoFunction)} {t : Schedule CoFunction}
    (h : exec Schedule.step (Schedule.coroutineOpen CoFunction stack) as = .next t) :
    ∃ s, CoRun {} as s ∧ Represents t s := by
  have hall : t.Inv ∧ ∃ s, CoRun {} as s ∧ Represents t s := by
    refine exec_induction (I := fun as t => t.Inv ∧ ∃ s, CoRun {} as s ∧ Represents t s)
      ⟨Schedule.inv_open hstack, {}, .nil, represents_open stack⟩ ?_ h
    intro as a t t' _ ⟨hinv, s, hrun, hrep⟩ hstep
    obtain ⟨s', hmove, hrep'⟩ := represents_step hinv hrep hstep
    exact ⟨Schedule.inv_step hinv hstep, s', .snoc hrun hmove, hrep'⟩
  exact hall.2

theorem schedule_refines_two :
    ∃ t s, exec Schedule.step (Schedule.coroutineOpen CoFunction Schedule.zeros)
        [.new 0, .resume 0, .yield 8, .new 1, .resume 1] = .next t ∧
      CoRun {} [.new 0, .resume 0, .yield 8, .new 1, .resume 1] s ∧ Represents t s := by
  let start := Schedule.coroutineOpen CoFunction Schedule.zeros
  have h := Outcome.eq_next_of_isNext
    (o := exec Schedule.step start [.new 0, .resume 0, .yield 8, .new 1, .resume 1]) rfl start
  obtain ⟨s, hrun, hrep⟩ := schedule_refines List.length_replicate h
  exact ⟨_, s, h, hrun, hrep⟩

end Third
end CoSocket
