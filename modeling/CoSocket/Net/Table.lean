import CoSocket.Net.Moves

/-!
# Net.Table

The coroutine table along a run: which coroutines are live, which one runs, and in which blocking
call each of the others is suspended. `Table` is the invariant; the `InCall` lemmas say how each
kind of move changes who is in which call.
-/

namespace CoSocket
namespace Net

open Base Lts

/-- Ids are not negative; exactly the running coroutine has the status of one, and every other is
suspended in a blocking call. -/
structure Table (s : St) : Prop where
  live : ∀ id c, s.co[id]? = some c → 0 ≤ id ∧
    (id = s.running ∧ c.status = .COROUTINE_RUNNING ∨
      id ≠ s.running ∧ c.status = .COROUTINE_SUSPEND ∧ c.wait ≠ none)
  running : s.running ≠ -1 → ∃ c, s.co[s.running]? = some c

theorem Table.suspended_iff {s : St} (h : Table s) {id : Int} {w : Wait} :
    s.Suspended id w ↔ s.InCall id w ∧ id ≠ s.running := by
  constructor
  · rintro ⟨c, hc, hst, hw⟩
    refine ⟨⟨c, hc, hw⟩, ?_⟩
    rcases (h.live id c hc).2 with ⟨-, hst'⟩ | ⟨hne, -⟩
    · rw [hst] at hst'
      cases hst'
    · exact hne
  · rintro ⟨⟨c, hc, hw⟩, hne⟩
    rcases (h.live id c hc).2 with ⟨he, -⟩ | ⟨-, hst, -⟩
    · exact absurd he hne
    · exact ⟨c, hc, hst, hw⟩

theorem Table.inCall_nonneg {s : St} (h : Table s) {id : Int} {w : Wait} (hin : s.InCall id w) :
    0 ≤ id := by
  obtain ⟨c, hc, -⟩ := hin
  exact (h.live id c hc).1

theorem Table.suspended_of_idle {s : St} (h : Table s) (hidle : s.running = -1) {id : Int}
    {w : Wait} (hin : s.InCall id w) : s.Suspended id w := by
  have hid := h.inCall_nonneg hin
  exact h.suspended_iff.mpr ⟨hin, by omega⟩

/-! ## Who is in which call -/

theorem getElem?_insert_co (co : Std.ExtTreeMap Int Coroutine) (k id : Int) (c : Coroutine) :
    (co.insert k c)[id]? = if k = id then some c else co[id]? := by
  simp [Std.ExtTreeMap.getElem?_insert]

theorem getElem?_erase_co (co : Std.ExtTreeMap Int Coroutine) (k id : Int) :
    (co.erase k)[id]? = if k = id then none else co[id]? := by
  simp [Std.ExtTreeMap.getElem?_erase]

theorem inCall_insert_iff {s s' : St} {k : Int} {c : Coroutine} (h : s'.co = s.co.insert k c)
    {id : Int} {w : Wait} :
    s'.InCall id w ↔ id = k ∧ c.wait = some w ∨ id ≠ k ∧ s.InCall id w := by
  unfold St.InCall
  rw [h]
  by_cases hk : id = k
  · subst hk
    simp
  · simp [getElem?_insert_co, hk, Ne.symm hk]

theorem inCall_of_insert {s s' : St} {k : Int} {c : Coroutine} (h : s'.co = s.co.insert k c)
    {w : Wait} (hw : c.wait ≠ some w) {id : Int} (hin : s'.InCall id w) : s.InCall id w := by
  rcases (inCall_insert_iff h).mp hin with ⟨-, hcw⟩ | ⟨-, hin⟩
  · exact absurd hcw hw
  · exact hin

theorem inCall_insert_other {s s' : St} {k : Int} {c : Coroutine} (h : s'.co = s.co.insert k c)
    {w : Wait} (hw : c.wait ≠ some w) (hk : ¬ s.InCall k w) {id : Int} :
    s'.InCall id w ↔ s.InCall id w := by
  refine ⟨inCall_of_insert h hw, fun hin => (inCall_insert_iff h).mpr (.inr ⟨?_, hin⟩)⟩
  rintro rfl
  exact hk hin

theorem inCall_resume_iff {s s' : St} {k : Int} {c : Coroutine} (hc : s.co[k]? = some c)
    (h : s'.co = s.co.insert k { c with status := .COROUTINE_RUNNING }) {id : Int} {w : Wait} :
    s'.InCall id w ↔ s.InCall id w := by
  rw [inCall_insert_iff h]
  constructor
  · rintro (⟨rfl, hcw⟩ | ⟨-, hin⟩)
    · exact ⟨c, hc, hcw⟩
    · exact hin
  · intro hin
    by_cases hk : id = k
    · subst hk
      obtain ⟨c₁, hc₁, hw₁⟩ := hin
      rw [hc] at hc₁
      cases hc₁
      exact .inl ⟨rfl, hw₁⟩
    · exact .inr ⟨hk, hin⟩

theorem inCall_new_iff {s s' : St} {k : Int} {func : CoFunction} (hfree : s.co[k]? = none)
    (h : s'.co = (s.co.insert k { func }).insert k { func, status := .COROUTINE_RUNNING })
    {id : Int} {w : Wait} : s'.InCall id w ↔ s.InCall id w := by
  unfold St.InCall
  rw [h]
  by_cases hk : k = id
  · subst hk
    simp [hfree]
  · simp [getElem?_insert_co, hk]

theorem inCall_exit_iff {s : St} {id : Int} {w : Wait} (hu : s.inUser = true) :
    s.coroutineExit.InCall id w ↔ s.InCall id w := by
  obtain ⟨-, c, hc, hw⟩ := St.inUser_iff.mp hu
  unfold St.InCall
  simp only [St.coroutineExit, getElem?_erase_co]
  by_cases hk : s.running = id
  · subst hk
    simp [hc, hw]
  · simp [hk]

theorem not_inCall_of_inUser {s : St} (hu : s.inUser = true) (w : Wait) :
    ¬ s.InCall s.running w := by
  obtain ⟨-, c, hc, hw⟩ := St.inUser_iff.mp hu
  rintro ⟨c', hc', hw'⟩
  rw [hc] at hc'
  cases hc'
  rw [hw] at hw'
  cases hw'

theorem idle_of_inMain {s : St} (hm : s.inMain = true) : s.running = -1 ∧ s.pc = .main := by
  simpa [St.inMain] using hm

theorem not_inCall_of_ownCode {s : St} (h : Table s) (hu : (s.inUser || s.inMain) = true)
    (w : Wait) : ¬ s.InCall s.running w := by
  rcases (Bool.or_eq_true _ _).mp hu with hu | hm
  · exact not_inCall_of_inUser hu w
  · intro hin
    have := h.inCall_nonneg hin
    rw [(idle_of_inMain hm).1] at this
    omega

theorem running_of_inUser {s : St} (hu : s.inUser = true) : s.running ≠ -1 :=
  (St.inUser_iff.mp hu).1

/-! ## The table along a run -/

theorem table_init (isOpen : Std.ExtTreeSet Int) : Table (St.init isOpen) where
  live id c h := by simp [St.init] at h
  running h := by simp [St.init] at h

theorem table_reframe {s s' : St} (h : Table s) {c : Coroutine} {w : Option Wait}
    (hc : s.co[s.running]? = some c) (hr : s'.running = s.running)
    (hco : s'.co = s.co.insert s.running { c with wait := w }) : Table s' := by
  constructor
  · intro id c' hid
    rw [hco, getElem?_insert_co] at hid
    rw [hr]
    split at hid
    · rename_i he
      cases hid
      obtain ⟨hn, hst⟩ := h.live s.running c hc
      refine ⟨he ▸ hn, .inl ⟨he.symm, ?_⟩⟩
      rcases hst with ⟨-, hst⟩ | ⟨hne, -⟩
      · exact hst
      · exact absurd rfl hne
    · exact h.live id c' hid
  · intro _
    exact ⟨_, by rw [hco, hr, getElem?_insert_co, if_pos rfl]⟩

theorem table_suspend {s s' : St} (h : Table s) {c : Coroutine} {w : Wait}
    (hc : s.co[s.running]? = some c) (hr : s'.running = -1)
    (hco : s'.co = s.co.insert s.running
      { c with status := .COROUTINE_SUSPEND, wait := some w }) : Table s' := by
  have hn := (h.live s.running c hc).1
  constructor
  · intro id c' hid
    rw [hco, getElem?_insert_co] at hid
    rw [hr]
    split at hid
    · rename_i he
      cases hid
      exact ⟨he ▸ hn, .inr ⟨by omega, rfl, by simp⟩⟩
    · rename_i hne
      obtain ⟨hid0, hst⟩ := h.live id c' hid
      refine ⟨hid0, .inr ?_⟩
      rcases hst with ⟨he, -⟩ | ⟨-, hst⟩
      · exact absurd he.symm hne
      · exact ⟨by omega, hst⟩
  · intro hne
    exact absurd hr hne

theorem table_run {s s' : St} (h : Table s) {id : Int} {c : Coroutine} (hidle : s.running = -1)
    (hid : 0 ≤ id) (hr : s'.running = id)
    (hco : ∀ k, s'.co[k]? =
      if id = k then some { c with status := .COROUTINE_RUNNING } else s.co[k]?) : Table s' := by
  constructor
  · intro k c' hk
    rw [hco] at hk
    rw [hr]
    split at hk
    · rename_i he
      cases hk
      exact ⟨he ▸ hid, .inl ⟨he.symm, rfl⟩⟩
    · rename_i hne
      obtain ⟨hk0, hst⟩ := h.live k c' hk
      refine ⟨hk0, .inr ?_⟩
      rcases hst with ⟨he, -⟩ | ⟨-, hst⟩
      · omega
      · exact ⟨Ne.symm hne, hst⟩
  · intro _
    exact ⟨{ c with status := .COROUTINE_RUNNING }, by rw [hr, hco, if_pos rfl]⟩

theorem table_exit {s : St} (h : Table s) (hu : s.inUser = true) : Table s.coroutineExit := by
  obtain ⟨hne, -⟩ := St.inUser_iff.mp hu
  constructor
  · intro id c hid
    simp only [St.coroutineExit, getElem?_erase_co] at hid ⊢
    split at hid
    · cases hid
    · rename_i hk
      obtain ⟨hid0, hst⟩ := h.live id c hid
      refine ⟨hid0, .inr ?_⟩
      rcases hst with ⟨he, -⟩ | ⟨-, hst⟩
      · exact absurd he.symm hk
      · exact ⟨by omega, hst⟩
  · intro hr
    simp [St.coroutineExit] at hr

theorem new_co (co : Std.ExtTreeMap Int Coroutine) (id k : Int) (func : CoFunction) :
    ((co.insert id { func }).insert id { func, status := .COROUTINE_RUNNING })[k]? =
      if id = k then some ({ func, status := .COROUTINE_RUNNING } : Coroutine) else co[k]? := by
  rw [getElem?_insert_co, getElem?_insert_co]
  split <;> rfl

theorem table_move {s s' : St} {a : Act} (h : Table s) (hm : Move s a s') : Table s' := by
  cases hm with
  | ioReturn => exact ⟨h.live, h.running⟩
  | ioReject => exact ⟨h.live, h.running⟩
  | ioWait _ hc => exact table_suspend h hc rfl rfl
  | wakeCondition _ hc => exact table_reframe h hc rfl rfl
  | wakeIo _ hc => exact table_reframe h hc rfl rfl
  | conditionWait _ hc => exact table_suspend h hc rfl rfl
  | conditionNotify => exact ⟨h.live, h.running⟩
  | getCondition => exact ⟨h.live, h.running⟩
  | newCoroutine => exact ⟨h.live, h.running⟩
  | @spawn func id hm hid =>
    exact table_run (c := { func }) h (idle_of_inMain hm).1 (St.freeId_iff.mp hid).1 rfl
      fun k => new_co s.co id k func
  | finish hu => exact table_exit h hu
  | openFd => exact ⟨h.live, h.running⟩
  | closeFd => exact ⟨h.live, h.running⟩
  | run => exact ⟨h.live, h.running⟩
  | advance hr ha => cases ha <;> exact ⟨h.live, h.running⟩
  | @start env it func hr hpc hf hid =>
    exact table_run (c := { func }) h hr (St.freeId_iff.mp hid).1 rfl
      fun k => new_co s.co env.id k func
  | resume hr ht hid hc =>
    exact table_run h hr hid rfl fun k => getElem?_insert_co _ _ _ _
  | resumeDead => exact ⟨h.live, h.running⟩

/-! ## Calls across a step -/

theorem wake_of_inCall {s s' : St} {a : Act} {w : Wait} (ht : Table s)
    (hin : s.InCall s.running w) (hm : Move s a s') : ∃ retry, a = .wake retry := by
  have hpos := ht.inCall_nonneg hin
  cases hm with
  | wakeCondition => exact ⟨_, rfl⟩
  | wakeIo => exact ⟨_, rfl⟩
  | ioReturn hu | ioReject hu | ioWait hu | conditionWait hu | newCoroutine hu | finish hu =>
    exact absurd hin (not_inCall_of_inUser hu w)
  | conditionNotify hu | getCondition hu | openFd hu | closeFd hu =>
    exact absurd hin (not_inCall_of_ownCode ht hu w)
  | spawn hm | run hm =>
    have := (idle_of_inMain hm).1
    omega
  | advance hr | start hr | resume hr | resumeDead hr => omega

theorem inCall_kept {s s' : St} {a : Act} {id : Int} {w : Wait} (hm : Move s a s')
    (hne : id ≠ s.running) (hin : s.InCall id w) : s'.InCall id w := by
  cases hm with
  | ioWait | wakeCondition | wakeIo | conditionWait =>
    exact (inCall_insert_iff rfl).mpr (.inr ⟨hne, hin⟩)
  | spawn hm hid => exact (inCall_new_iff (St.freeId_iff.mp hid).2 rfl).mpr hin
  | start hr hpc hf hid => exact (inCall_new_iff (St.freeId_iff.mp hid).2 rfl).mpr hin
  | finish hu => exact (inCall_exit_iff hu).mpr hin
  | resume hr ht hid hc => exact (inCall_resume_iff hc rfl).mpr hin
  | advance hr ha => cases ha <;> exact hin
  | _ => exact hin

end Net
end CoSocket
