import CoSocket.Net.Registries

/-!
# Net.Drains

`RunNewCoFunc` and `RunWaitResumeCo` walk over lists to which the coroutines they start and resume
keep appending, and clear them at the end. Each of the two lists is a queue: `queued` and `pending`
are what the walk has not reached, a step takes at most the first of them away, and what is appended
comes after the rest. So whatever has been handed over up to some point of a run is what has been
started, in that order, and then the queue (`outputs_queue`); and the walk ends where the queue is
empty, so that nothing is cleared that was not reached (`drains_in_order`).

The second walk comes after the first. What a coroutine resumed by it hands to the first list stays
there while `Poll` waits, and this is the only way to leave something (`drained_at_poll_iff`).
-/

namespace CoSocket
namespace Net

open Base Lts

namespace St

/-- The functions of `m_coFuncList` that the walk of `RunNewCoFunc` has passed. -/
def startedCount (s : St) : Nat :=
  match s.pc with
  | .newCoFunc it => it
  | _ => 0

/-- The functions of `m_coFuncList` still to be started. -/
def queued (s : St) : List CoFunction := s.coFuncList.drop s.startedCount

/-! ## What a step puts in and takes out -/

/-- The functions handed to `NewCoroutine` from inside a coroutine. -/
def hands (s : St) : Act → List CoFunction
  | .newCoroutine func _ => if s.inUser then [func] else []
  | _ => []

/-- The functions `RunNewCoFunc` starts: those of the coroutine it resumes and that then runs. -/
def starts (s : St) (a : Act) : List CoFunction :=
  match s.resumes a, s.step a with
  | some (id, .start), .next s' =>
    if s'.running = id then (s'.co[id]?.map (·.func)).toList else []
  | _, _ => []

/-- The coroutines `ConditionNotify` moves to `m_waitResumeList`. -/
def notifies (s : St) : Act → List Int
  | .conditionNotify condition =>
    if s.inUser || s.inMain then (s.waiters (conditionKey condition)).toList else []
  | _ => []

/-- The coroutines `RunWaitResumeCo` resumes and that then run. -/
def wakesNotified (s : St) (a : Act) : List Int :=
  match s.resumes a, s.step a with
  | some (id, .notified), .next s' => if s'.running = id then [id] else []
  | _, _ => []

theorem starts_of_not_start {s : St} {a : Act} (h : ∀ id, s.resumes a ≠ some (id, .start)) :
    s.starts a = [] := by
  unfold starts
  split
  · rename_i id s' hres hs
    exact absurd hres (h id)
  · rfl

theorem wakesNotified_of_not_notified {s : St} {a : Act}
    (h : ∀ id, s.resumes a ≠ some (id, .notified)) : s.wakesNotified a = [] := by
  unfold wakesNotified
  split
  · rename_i id s' hres hs
    exact absurd hres (h id)
  · rfl

end St

/-! ## The functions to start -/

/-- The walk of `RunNewCoFunc` is within its list. -/
def Walk (s : St) : Prop := s.startedCount ≤ s.coFuncList.length

theorem St.startedCount_of_pc {s : St} (h : ∀ it, s.pc ≠ .newCoFunc it) : s.startedCount = 0 := by
  unfold startedCount
  split
  · rename_i it hpc
    exact absurd hpc (h it)
  · rfl

/-- Where `RunNewCoFunc` is not under way, before the step or after it, the list is the queue. -/
theorem queued_of_pc {s : St} (h : ∀ it, s.pc ≠ .newCoFunc it) : s.queued = s.coFuncList := by
  rw [St.queued, St.startedCount_of_pc h, List.drop_zero]

theorem walk_of_pc {s : St} (h : ∀ it, s.pc ≠ .newCoFunc it) : Walk s := by
  rw [Walk, St.startedCount_of_pc h]
  exact Nat.zero_le _

theorem Target.not_newCoFunc {s : St} {pc' : Pc} {id : Int} {why : Why} (h : Target s pc' id why) :
    (∀ it, s.pc ≠ .newCoFunc it) ∧ (∀ it, pc' ≠ .newCoFunc it) ∧ why ≠ .start := by
  cases h with
  | notified hpc | read hpc | write hpc | timeout hpc => simp [hpc]

theorem queued_newCoroutine {s : St} (h : Walk s) (func : CoFunction) :
    ({ s with coFuncList := s.coFuncList ++ [func] } : St).queued = s.queued ++ [func] :=
  List.drop_append_of_le_length h

theorem queued_user {s s' : St} {a : Act} (h : Walk s) (ha : ∀ env, a ≠ .sched env)
    (hm : Move s a s') : s'.queued = s.queued ++ s.hands a ∧ Walk s' := by
  cases hm with
  | @newCoroutine func id hu =>
    refine ⟨?_, Nat.le_trans h (by simp)⟩
    rw [St.hands, if_pos hu]
    exact queued_newCoroutine h func
  | @spawn func id hm =>
    have hu : ¬ s.inUser = true := fun hu => running_of_inUser hu (idle_of_inMain hm).1
    refine ⟨?_, h⟩
    rw [St.hands, if_neg hu]
    exact (List.append_nil _).symm
  | run hm =>
    refine ⟨?_, Nat.zero_le _⟩
    rw [queued_of_pc (s := s) (by simp [(idle_of_inMain hm).2])]
    exact (List.append_nil _).symm
  | advance | start | resume | resumeDead => exact absurd rfl (ha _)
  | _ => exact ⟨(List.append_nil _).symm, h⟩

/-- The main loop takes the first function off the queue where it starts one, and clears the list
where the queue is empty. -/
theorem queued_sched {s s' : St} {env : Env} (hs : s.step (.sched env) = .next s') :
    s.queued = s.starts (.sched env) ++ s'.queued ∧ Walk s' := by
  obtain ⟨hr, ⟨hres, ha⟩ | ⟨it, func, hres, hpc, hf, hfree, rfl⟩ |
    ⟨pc', id, why, hres, ht, hid, hcase⟩⟩ := St.sched_cases hs
  · rw [St.starts_of_not_start (by simp [hres]), List.nil_append]
    cases ha with
    | newCoFunc hpc hend =>
      refine ⟨?_, Nat.zero_le _⟩
      rw [St.queued, St.startedCount, hpc]
      exact List.drop_eq_nil_of_le (List.getElem?_eq_none_iff.mp hend)
    | waitResume hpc | poll hpc | batchEnd hpc | batchSkip hpc | eventOut hpc | eventEnd hpc
    | timeoutEnd hpc =>
      refine ⟨?_, Nat.zero_le _⟩
      rw [queued_of_pc (by simp [hpc])]
      rfl
  · obtain ⟨hlt, rfl⟩ := List.getElem?_eq_some_iff.mp hf
    refine ⟨?_, hlt⟩
    simp only [St.starts, hres, hs, if_true, new_co, Option.map_some, Option.toList_some]
    rw [St.queued, St.startedCount, hpc]
    exact List.drop_eq_getElem_cons hlt
  · obtain ⟨hpc, hpc', hwhy⟩ := ht.not_newCoFunc
    rw [St.starts_of_not_start (by simpa [hres] using hwhy), List.nil_append, queued_of_pc hpc]
    rcases hcase with ⟨-, rfl⟩ | ⟨c, -, -, rfl⟩
    · refine ⟨?_, walk_of_pc hpc'⟩
      rw [queued_of_pc hpc']
    · refine ⟨?_, walk_of_pc hpc'⟩
      rw [queued_of_pc hpc']

theorem queued_step {s s' : St} {a : Act} (h : Walk s) (hs : s.step a = .next s') :
    s.queued ++ s.hands a = s.starts a ++ s'.queued ∧ Walk s' := by
  cases a with
  | sched env =>
    rw [show s.hands (.sched env) = [] from rfl, List.append_nil]
    exact queued_sched hs
  | _ =>
    rw [St.starts_of_not_start (by simp [St.resumes]), List.nil_append]
    obtain ⟨hq, hw⟩ := queued_user h (by simp) (St.step_move hs)
    exact ⟨hq.symm, hw⟩

theorem reach_walk {isOpen : Std.ExtTreeSet Int} {s : St}
    (h : Reach St.step Any (St.init isOpen) s) : Walk s :=
  h.invariant (show Walk (St.init isOpen) from Nat.le_refl 0) fun _ _ _ _ hi _ hs =>
    (queued_step hi hs).2

/-! ## The coroutines to resume -/

theorem pending_user {s s' : St} {a : Act} (h : Conditions s) (ha : ∀ env, a ≠ .sched env)
    (hm : Move s a s') : s'.pending = s.pending ++ s.notifies a := by
  cases hm with
  | @conditionNotify condition hu =>
    rw [St.notifies, if_pos hu]
    exact St.pending_conditionNotify h condition
  | run hm =>
    rw [(pending_eq (s := s) (by simp [(idle_of_inMain hm).2])).2]
    exact (List.append_nil _).symm
  | advance | start | resume | resumeDead => exact absurd rfl (ha _)
  | _ => exact (List.append_nil _).symm

/-- The main loop takes the first of the pending coroutines where it resumes one, and clears the
list where none is pending. -/
theorem pending_sched {s s' : St} {env : Env} (h : Inv s) (hs : s.step (.sched env) = .next s') :
    s.pending = s.wakesNotified (.sched env) ++ s'.pending := by
  obtain ⟨hr, ⟨hres, ha⟩ | ⟨it, func, hres, hpc, hf, hfree, rfl⟩ |
    ⟨pc', id, why, hres, ht, hid, hcase⟩⟩ := St.sched_cases hs
  · rw [St.wakesNotified_of_not_notified (by simp [hres]), List.nil_append]
    cases ha with
    | waitResume hpc hend =>
      rw [St.pending, St.passed, hpc]
      exact List.drop_eq_nil_of_le (List.getElem?_eq_none_iff.mp hend)
    | newCoFunc hpc | poll hpc | batchEnd hpc | batchSkip hpc | eventOut hpc | eventEnd hpc
    | timeoutEnd hpc =>
      rw [(pending_eq (s := s) (by simp [hpc])).2]
      rfl
  · rw [St.wakesNotified_of_not_notified (by simp [hres]), List.nil_append,
      (pending_eq (s := s) (by simp [hpc])).2]
    rfl
  · obtain ⟨w, c, hc, -⟩ := ht.inCall h.slots h.timers h.conditions
    rcases hcase with ⟨hn, -⟩ | ⟨c', hc', -, rfl⟩
    · -- every target is live
      rw [hc] at hn
      cases hn
    cases ht with
    | notified hpc hidx =>
      simp only [St.wakesNotified, hres, hs, if_true]
      exact pending_of_waitResume hpc hidx
    | read hpc | write hpc | timeout hpc =>
      rw [St.wakesNotified_of_not_notified (by simp [hres]), List.nil_append,
        (pending_eq (s := s) (by simp [hpc])).2]
      rfl

theorem pending_step {s s' : St} {a : Act} (h : Inv s) (hs : s.step a = .next s') :
    s.pending ++ s.notifies a = s.wakesNotified a ++ s'.pending := by
  cases a with
  | sched env =>
    rw [show s.notifies (.sched env) = [] from rfl, List.append_nil]
    exact pending_sched h hs
  | _ =>
    rw [St.wakesNotified_of_not_notified (by simp [St.resumes]), List.nil_append]
    exact (pending_user h.conditions (by simp) (St.step_move hs)).symm

/-! ## Both drains, along a run -/

theorem queued_of_clear {s s' : St} {it : Nat} {env : Env} (hpc : s.pc = .newCoFunc it)
    (hs : s.step (.sched env) = .next s') (hpc' : s'.pc = .waitResume 0) :
    s.queued = [] ∧ s'.coFuncList = [] := by
  obtain ⟨hr, ⟨hres, ha⟩ | ⟨it, func, -, -, -, -, rfl⟩ | ⟨pc', id, why, -, ht, -⟩⟩ :=
    St.sched_cases hs
  · cases ha with
    | newCoFunc hpc₁ hend =>
      rw [St.queued, St.startedCount, hpc₁]
      exact ⟨List.drop_eq_nil_of_le (List.getElem?_eq_none_iff.mp hend), rfl⟩
    | waitResume hpc₁ | poll hpc₁ | batchEnd hpc₁ | batchSkip hpc₁ | eventOut hpc₁
    | eventEnd hpc₁ | timeoutEnd hpc₁ => cases hpc.symm.trans hpc₁
  · cases hpc'
  · exact absurd hpc (ht.not_newCoFunc.1 it)

theorem pending_of_clear {s s' : St} {it : Nat} {env : Env} (hpc : s.pc = .waitResume it)
    (hs : s.step (.sched env) = .next s') (hpc' : s'.pc = .poll) :
    s.pending = [] ∧ s'.waitResumeList = [] := by
  obtain ⟨hr, ⟨hres, ha⟩ | ⟨it, func, -, hpc₁, -⟩ | ⟨pc', id, why, -, ht, -, hcase⟩⟩ :=
    St.sched_cases hs
  · cases ha with
    | waitResume hpc₁ hend =>
      rw [St.pending, St.passed, hpc₁]
      exact ⟨List.drop_eq_nil_of_le (List.getElem?_eq_none_iff.mp hend), rfl⟩
    | newCoFunc hpc₁ | poll hpc₁ | batchEnd hpc₁ | batchSkip hpc₁ | eventOut hpc₁
    | eventEnd hpc₁ | timeoutEnd hpc₁ => cases hpc.symm.trans hpc₁
  · cases hpc.symm.trans hpc₁
  · -- a resumption stays in the walk
    have hne : pc' ≠ .poll := by cases ht <;> simp
    rcases hcase with ⟨-, rfl⟩ | ⟨c, -, -, rfl⟩
    · exact absurd hpc' hne
    · exact absurd hpc' hne

/-- **The drains of every run.** The functions handed to `NewCoroutine` from inside coroutines are
those started so far, each once and in that order, followed by the queued ones; the coroutines moved
to `m_waitResumeList` are those resumed so far, once for each notification and in list order,
followed by the pending ones. Where a drain ends, nothing is queued or pending, so that the list is
cleared of what has all been started or resumed. -/
theorem drains_in_order {isOpen : Std.ExtTreeSet Int} {acts : List Act} {s : St}
    (h : exec St.step (St.init isOpen) acts = .next s) :
    outputs St.step St.hands (St.init isOpen) acts =
      outputs St.step St.starts (St.init isOpen) acts ++ s.queued ∧
    outputs St.step St.notifies (St.init isOpen) acts =
      outputs St.step St.wakesNotified (St.init isOpen) acts ++ s.pending ∧
    (∀ it env s', s.pc = .newCoFunc it → s.step (.sched env) = .next s' →
      s'.pc = .waitResume 0 → s'.coFuncList = [] ∧
        outputs St.step St.hands (St.init isOpen) acts =
          outputs St.step St.starts (St.init isOpen) acts) ∧
    ∀ it env s', s.pc = .waitResume it → s.step (.sched env) = .next s' →
      s'.pc = .poll → s'.waitResumeList = [] ∧
        outputs St.step St.notifies (St.init isOpen) acts =
          outputs St.step St.wakesNotified (St.init isOpen) acts := by
  have hfuncs : outputs St.step St.hands (St.init isOpen) acts =
      outputs St.step St.starts (St.init isOpen) acts ++ s.queued :=
    outputs_queue rfl (fun _ _ _ hr hs => (queued_step (reach_walk hr) hs).1) h
  have hcoros : outputs St.step St.notifies (St.init isOpen) acts =
      outputs St.step St.wakesNotified (St.init isOpen) acts ++ s.pending :=
    outputs_queue rfl (fun _ _ _ hr hs => pending_step (reach_inv hr) hs) h
  refine ⟨hfuncs, hcoros, fun it env s' hpc hs hpc' => ?_, fun it env s' hpc hs hpc' => ?_⟩
  · obtain ⟨hnil, hclear⟩ := queued_of_clear hpc hs hpc'
    rw [hnil, List.append_nil] at hfuncs
    exact ⟨hclear, hfuncs⟩
  · obtain ⟨hnil, hclear⟩ := pending_of_clear hpc hs hpc'
    rw [hnil, List.append_nil] at hcoros
    exact ⟨hclear, hcoros⟩

/-- Coroutine 0 hands over two functions and waits for a condition; the first of them, once
started, hands over a third one and notifies. -/
def handOverActs : List Act :=
  [.newCoroutine 0 0, .newCoroutine 7 0, .newCoroutine 8 0, .conditionWait 5, .run,
    .sched { id := 1 }, .newCoroutine 9 0, .conditionNotify 5, .finish,
    .sched { id := 2 }, .finish, .sched { id := 3 }, .finish]

theorem drains_in_order_handOver :
    (St.after [] handOverActs).pc = .newCoFunc 3 ∧
    outputs St.step St.starts (St.initWith []) handOverActs = [7, 8, 9] ∧
    outputs St.step St.notifies (St.initWith []) handOverActs = [0] ∧
    outputs St.step St.hands (St.initWith []) handOverActs =
      outputs St.step St.starts (St.initWith []) handOverActs := by
  have hrun : exec St.step (St.initWith []) handOverActs = _ := exec_after (by decide)
  have hpc : (St.after [] handOverActs).pc = .newCoFunc 3 := by decide
  have hs : (St.after [] handOverActs).step (.sched {}) = .next _ :=
    step_after (by decide) (by decide)
  have hpc' : (St.after [] (handOverActs ++ [.sched {}])).pc = .waitResume 0 := by decide
  obtain ⟨-, heq⟩ := (drains_in_order hrun).2.2.1 3 {} _ hpc hs hpc'
  exact ⟨hpc, by decide, by decide, heq⟩

/-! ## What is left at `Poll` -/

/-- The step calls `NewCoroutine` from a coroutine that `RunWaitResumeCo` has resumed. -/
def St.spawnsLate (s : St) : Act → Bool
  | .newCoroutine _ _ =>
    match s.pc with
    | .waitResume _ => s.inUser
    | _ => false
  | _ => false

theorem St.spawnsLate_iff {s : St} {a : Act} :
    s.spawnsLate a = true ↔
      ∃ func id it, a = .newCoroutine func id ∧ s.pc = .waitResume it ∧ s.inUser = true := by
  constructor
  · intro h
    cases a with
    | newCoroutine func id =>
      cases hpc : s.pc with
      | waitResume it =>
        simp only [spawnsLate, hpc] at h
        exact ⟨func, id, it, rfl, rfl, h⟩
      | main | newCoFunc | poll | batch | eventOut | timeout => simp [spawnsLate, hpc] at h
    | _ => cases h
  · rintro ⟨func, id, it, rfl, hpc, hu⟩
    simp only [spawnsLate, hpc, hu]

/-- The program's own code runs in a coroutine, or before `Run`; of the main loop it can only start
`Run`. -/
theorem pc_user {s s' : St} {a : Act} (ha : ∀ env, a ≠ .sched env) (hm : Move s a s') :
    s.pc = .main ∧ s'.pc = .newCoFunc 0 ∨ s'.pc = s.pc ∧ (s.running ≠ -1 ∨ s.pc = .main) := by
  have hown : (s.inUser || s.inMain) = true → s.running ≠ -1 ∨ s.pc = .main := by
    intro hu
    rcases Bool.or_eq_true_iff.mp hu with hu | hu
    · exact .inl (running_of_inUser hu)
    · exact .inr (idle_of_inMain hu).2
  cases hm with
  | run hm => exact .inl ⟨(idle_of_inMain hm).2, rfl⟩
  | spawn hm => exact .inr ⟨rfl, .inr (idle_of_inMain hm).2⟩
  | advance | start | resume | resumeDead => exact absurd rfl (ha _)
  | wakeCondition hr | wakeIo hr => exact .inr ⟨rfl, .inl hr⟩
  | conditionNotify hu | getCondition hu | openFd hu | closeFd hu => exact .inr ⟨rfl, hown hu⟩
  | ioReturn hu | ioReject hu | ioWait hu | conditionWait hu | newCoroutine hu | finish hu =>
    exact .inr ⟨rfl, .inl (running_of_inUser hu)⟩

/-- The only way to `Poll` is the end of `RunWaitResumeCo`. -/
theorem sched_poll {s s' : St} {env : Env} (hs : s.step (.sched env) = .next s')
    (hpc' : s'.pc = .poll) :
    s.running = -1 ∧ (∃ it, s.pc = .waitResume it) ∧
      s' = { s with waitResumeList := [], pc := .poll } := by
  obtain ⟨hr, ⟨-, ha⟩ | ⟨it, func, -, -, -, -, rfl⟩ | ⟨pc', id, why, -, ht, -, hcase⟩⟩ :=
    St.sched_cases hs
  · cases ha with
    | waitResume hpc => exact ⟨hr, ⟨_, hpc⟩, rfl⟩
    | newCoFunc | poll | batchEnd | batchSkip | eventOut | eventEnd | timeoutEnd => cases hpc'
  · cases hpc'
  · have hne : pc' ≠ .poll := by cases ht <;> simp
    rcases hcase with ⟨-, rfl⟩ | ⟨c, -, -, rfl⟩
    · exact absurd hpc' hne
    · exact absurd hpc' hne

/-- Where `Poll` is called nobody runs, and `m_waitResumeList` has just been cleared. -/
def AtPoll (s : St) : Prop := s.pc = .poll → s.running = -1 ∧ s.waitResumeList = []

theorem atPoll_step {s s' : St} {a : Act} (h : AtPoll s) (hs : s.step a = .next s') :
    AtPoll s' := by
  intro hpc'
  cases a with
  | sched env =>
    obtain ⟨hr, -, rfl⟩ := sched_poll hs hpc'
    exact ⟨hr, rfl⟩
  | _ =>
    exfalso
    rcases pc_user (by simp) (St.step_move hs) with ⟨-, hrun⟩ | ⟨hsame, hr | hmain⟩
    · rw [hrun] at hpc'
      cases hpc'
    · exact hr (h (hsame.symm.trans hpc')).1
    · rw [hsame, hmain] at hpc'
      cases hpc'

/-- From the end of `RunNewCoFunc` to `Poll` there is nothing to start. -/
structure Started (s : St) : Prop where
  waitResume : ∀ it, s.pc = .waitResume it → s.coFuncList = []
  poll : s.pc = .poll → s.coFuncList = []

theorem started_of_pc {s : St} (hw : ∀ it, s.pc ≠ .waitResume it) (hp : s.pc ≠ .poll) :
    Started s :=
  ⟨fun it hpc => absurd hpc (hw it), fun hpc => absurd hpc hp⟩

theorem started_step {s s' : St} {a : Act} (hp : AtPoll s) (h : Started s)
    (hlate : s.spawnsLate a = false) (hs : s.step a = .next s') : Started s' := by
  cases St.step_move hs with
  | @newCoroutine func id hu =>
    refine ⟨fun it hpc => ?_, fun hpc => absurd (hp hpc).1 (running_of_inUser hu)⟩
    have hl : s.spawnsLate (.newCoroutine func id) = true :=
      St.spawnsLate_iff.mpr ⟨func, id, it, rfl, hpc, hu⟩
    rw [hl] at hlate
    cases hlate
  | run => exact started_of_pc (by simp) (by simp)
  | start => exact started_of_pc (by simp) (by simp)
  | advance hr ha =>
    cases ha with
    | newCoFunc => exact ⟨fun _ _ => rfl, fun _ => rfl⟩
    | waitResume hpc => exact ⟨by simp, fun _ => h.waitResume _ hpc⟩
    | poll | batchEnd | batchSkip | eventOut | eventEnd | timeoutEnd =>
      exact started_of_pc (by simp) (by simp)
  | resume hr ht =>
    cases ht with
    | notified hpc => exact ⟨fun _ _ => h.waitResume _ hpc, by simp⟩
    | read | write | timeout => exact started_of_pc (by simp) (by simp)
  | resumeDead hr ht =>
    cases ht with
    | notified hpc => exact ⟨fun _ _ => h.waitResume _ hpc, by simp⟩
    | read | write | timeout => exact started_of_pc (by simp) (by simp)
  | _ => exact ⟨h.waitResume, h.poll⟩

/-- Once a function has been appended during `RunWaitResumeCo`, it is still there at `Poll`. -/
theorem late_step {s s' : St} {a : Act} {it : Nat} (hpc : s.pc = .waitResume it)
    (hne : s.coFuncList ≠ []) (hs : s.step a = .next s') :
    ((∃ it, s'.pc = .waitResume it) ∨ s'.pc = .poll) ∧ s'.coFuncList ≠ [] := by
  cases St.step_move hs with
  | newCoroutine hu => exact ⟨.inl ⟨it, hpc⟩, by simp⟩
  | run hm => cases hpc.symm.trans (idle_of_inMain hm).2
  | start hr hpc' => cases hpc.symm.trans hpc'
  | advance hr ha =>
    cases ha with
    | waitResume => exact ⟨.inr rfl, hne⟩
    | newCoFunc hpc' | poll hpc' | batchEnd hpc' | batchSkip hpc' | eventOut hpc' | eventEnd hpc'
    | timeoutEnd hpc' => cases hpc.symm.trans hpc'
  | resume hr ht =>
    cases ht with
    | notified => exact ⟨.inl ⟨_, rfl⟩, hne⟩
    | read hpc' | write hpc' | timeout hpc' => cases hpc.symm.trans hpc'
  | resumeDead hr ht =>
    cases ht with
    | notified => exact ⟨.inl ⟨_, rfl⟩, hne⟩
    | read hpc' | write hpc' | timeout hpc' => cases hpc.symm.trans hpc'
  | _ => exact ⟨.inl ⟨it, hpc⟩, hne⟩

theorem reach_atPoll {isOpen : Std.ExtTreeSet Int} {s : St}
    (h : Reach St.step Any (St.init isOpen) s) : AtPoll s :=
  h.invariant (fun hpc => absurd hpc (by simp [St.init])) fun _ _ _ _ hi _ hs => atPoll_step hi hs

theorem reach_started {isOpen : Std.ExtTreeSet Int} {s : St}
    (h : Reach St.step (fun s a => s.spawnsLate a = false) (St.init isOpen) s) : Started s :=
  h.invariant (started_of_pc (by simp [St.init]) (by simp [St.init])) fun _ _ _ hr hi hl hs =>
    started_step (reach_atPoll hr.any) hi hl hs

/-- A run with a late call of `NewCoroutine` has left a function at some `Poll`, or is still in the
`RunWaitResumeCo` of that call. -/
theorem along_or_left {isOpen : Std.ExtTreeSet Int} {acts : List Act} {s : St}
    (h : exec St.step (St.init isOpen) acts = .next s) :
    Along St.step (St.init isOpen) (fun s a => s.spawnsLate a = false) acts ∨
    (∃ pre s₁, pre <+: acts ∧ exec St.step (St.init isOpen) pre = .next s₁ ∧ s₁.pc = .poll ∧
      s₁.coFuncList ≠ []) ∨
    (∃ it, s.pc = .waitResume it) ∧ s.coFuncList ≠ [] := by
  refine exec_induction (I := fun acts s =>
    Along St.step (St.init isOpen) (fun s a => s.spawnsLate a = false) acts ∨
    (∃ pre s₁, pre <+: acts ∧ exec St.step (St.init isOpen) pre = .next s₁ ∧ s₁.pc = .poll ∧
      s₁.coFuncList ≠ []) ∨
    (∃ it, s.pc = .waitResume it) ∧ s.coFuncList ≠ []) ?_ ?_ h
  · refine .inl fun pre a s hp => ?_
    simp at hp
  · intro acts a s s' hpre ih hs
    rcases ih with hal | ⟨pre, s₁, hp, hleft⟩ | ⟨⟨it, hpc⟩, hne⟩
    · cases hlate : s.spawnsLate a with
      | false => exact .inl (hal.snoc hpre hlate)
      | true =>
        obtain ⟨func, id, it, rfl, hpc, hu⟩ := St.spawnsLate_iff.mp hlate
        rw [St.step, if_pos hu] at hs
        cases hs
        exact .inr (.inr ⟨⟨it, hpc⟩, by simp⟩)
    · exact .inr (.inl ⟨pre, s₁, hp.trans (List.prefix_append _ _), hleft⟩)
    · obtain ⟨hw | hpoll, hne'⟩ := late_step hpc hne hs
      · exact .inr (.inr ⟨hw, hne'⟩)
      · refine .inr (.inl ⟨acts ++ [a], s', List.prefix_rfl, ?_, hpoll, hne'⟩)
        rw [exec_snoc hpre, hs]

/-- **No runnable work at `Poll`.** In every run both lists are empty at each call of `Poll`, if and
only if up to each such call no coroutine that `RunWaitResumeCo` has resumed calls `NewCoroutine`:
`RunNewCoFunc`, which starts what is handed over, comes before it in the round. -/
theorem drained_at_poll_iff {isOpen : Std.ExtTreeSet Int} (acts : List Act) :
    (∀ pre s, pre <+: acts → exec St.step (St.init isOpen) pre = .next s → s.pc = .poll →
      s.coFuncList = [] ∧ s.waitResumeList = []) ↔
    ∀ pre s, pre <+: acts → exec St.step (St.init isOpen) pre = .next s → s.pc = .poll →
      Along St.step (St.init isOpen) (fun s a => s.spawnsLate a = false) pre := by
  constructor
  · intro hdrained pre s hp hpre hpc
    rcases along_or_left hpre with hal | ⟨pre₁, s₁, hp₁, hpre₁, hpc₁, hne⟩ | ⟨⟨it, hpc'⟩, -⟩
    · exact hal
    · exact absurd (hdrained pre₁ s₁ (hp₁.trans hp) hpre₁ hpc₁).1 hne
    · cases hpc.symm.trans hpc'
  · intro hal pre s hp hpre hpc
    exact ⟨(reach_started ((hal pre s hp hpre hpc).reach hpre)).poll hpc,
      (reach_atPoll (reach_of_exec hpre) hpc).2⟩

/-- Coroutine 0 waits for a condition, which the program notifies before `Run`; once resumed it
hands over a function and ends. -/
def lateSpawnActs : List Act :=
  [.newCoroutine 0 0, .conditionWait 5, .conditionNotify 5, .run, .sched {}, .sched {},
    .wake (.ok 0), .newCoroutine 7 0, .finish, .sched {}]

theorem left_at_poll :
    exec St.step (St.initWith []) lateSpawnActs = .next (St.after [] lateSpawnActs) ∧
    (St.after [] lateSpawnActs).pc = .poll ∧ (St.after [] lateSpawnActs).coFuncList = [7] ∧
    ¬ ∀ pre s, pre <+: lateSpawnActs → exec St.step (St.initWith []) pre = .next s →
      s.pc = .poll → s.coFuncList = [] ∧ s.waitResumeList = [] := by
  have hrun : exec St.step (St.initWith []) lateSpawnActs = .next (St.after [] lateSpawnActs) :=
    exec_after (by decide)
  have hfunc : (St.after [] lateSpawnActs).coFuncList = [7] := by decide
  refine ⟨hrun, by decide, hfunc, fun hdrained => ?_⟩
  have hnil := (hdrained _ _ List.prefix_rfl hrun (by decide)).1
  rw [hfunc] at hnil
  cases hnil

end Net
end CoSocket
