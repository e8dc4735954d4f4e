import CoSocket.Net.Rejected

/-!
# Net.TimedOut

Which calls return `-ETIME`. The reason of a wake-up is passed on in one flag, `m_handlingTimeout`,
that stays set while a timed-out coroutine goes on in its own code. A call that yields is not
misled: no coroutine is resumed for another reason before the flag is cleared. A call whose wait is
rejected does not yield, reads the flag all the same, and returns `-ETIME` when it is set.

`etime_own_iff` says that this is the only way: in every run, the calls that return `-ETIME` are
calls with a timeout that waited and whose own entry `RunTimeoutCo` found expired, if and only if no
wait is rejected while the flag is set.
-/

namespace CoSocket
namespace Net

open Base Lts

/-! ## The flag -/

/-- The flag is set only inside `RunTimeoutCo`. -/
def Alarm (s : St) : Prop := s.handlingTimeout = true → ∃ now, s.pc = .timeout now

theorem Alarm.off {s : St} (h : Alarm s) (hpc : ∀ now, s.pc ≠ .timeout now) :
    s.handlingTimeout ≠ true := by
  intro hset
  obtain ⟨now, hnow⟩ := h hset
  exact hpc now hnow

theorem alarm_target {s s' : St} {pc' : Pc} {id : Int} {why : Why} (h : Alarm s)
    (ht : Target s pc' id why) (hpc' : s'.pc = pc')
    (hflag : s'.handlingTimeout = s.handlingTimeout) : Alarm s' := by
  cases ht with
  | timeout hpc => exact fun _ => ⟨_, hpc'⟩
  | notified hpc | read hpc | write hpc =>
    intro hset
    exact absurd (hflag ▸ hset) (h.off (by simp [hpc]))

theorem alarm_move {s s' : St} {a : Act} (h : Alarm s) (hm : Move s a s') : Alarm s' := by
  cases hm with
  | run hm => exact fun hset => absurd hset (h.off (by simp [(idle_of_inMain hm).2]))
  | start hr hpc => exact fun hset => absurd hset (h.off (by simp [hpc]))
  | advance hr ha =>
    cases ha with
    | batchEnd => exact fun _ => ⟨_, rfl⟩
    | timeoutEnd => exact fun hset => absurd hset (by simp)
    | newCoFunc hpc | waitResume hpc | poll hpc | batchSkip hpc | eventOut hpc | eventEnd hpc =>
      exact fun hset => absurd hset (h.off (by simp [hpc]))
  | resume hr ht => exact alarm_target h ht rfl rfl
  | resumeDead hr ht => exact alarm_target h ht rfl rfl
  | _ => exact h

theorem reach_alarm {isOpen : Std.ExtTreeSet Int} {s : St}
    (h : Reach St.step Any (St.init isOpen) s) : Alarm s :=
  h.invariant (fun hset => absurd hset (by simp [St.init])) fun _ _ _ _ hi _ hs =>
    alarm_move hi (St.step_move hs)

/-! ## Where a wait comes from -/

theorem not_inCall_new {s s' : St} {k : Int} {func : CoFunction} (hfree : s.co[k]? = none)
    (h : s'.co = (s.co.insert k { func }).insert k { func, status := .COROUTINE_RUNNING })
    (w : Wait) : ¬ s'.InCall k w := by
  rw [inCall_new_iff hfree h]
  rintro ⟨c, hc, -⟩
  rw [hfree] at hc
  cases hc

theorem resumed_by {s s' : St} {a : Act} {w : Wait} (ht : Table s) (hm : Move s a s')
    (hr : s'.running ≠ -1) (hin : s'.InCall s'.running w) :
    ∃ env why, a = .sched env ∧ s.running = -1 ∧ Target s s'.pc s'.running why := by
  cases hm with
  | ioReturn hu => exact absurd hin (not_inCall_of_inUser hu w)
  | ioReject hu => exact absurd hin (not_inCall_of_inUser hu w)
  | ioWait => exact absurd rfl hr
  | wakeCondition _ hc =>
    rcases (inCall_insert_iff rfl).mp hin with ⟨-, hw⟩ | ⟨hne, -⟩
    · cases hw
    · exact absurd rfl hne
  | wakeIo _ hc =>
    rcases (inCall_insert_iff rfl).mp hin with ⟨-, hw⟩ | ⟨hne, -⟩
    · cases hw
    · exact absurd rfl hne
  | conditionWait => exact absurd rfl hr
  | conditionNotify hu => exact absurd hin (not_inCall_of_ownCode ht hu w)
  | getCondition hu => exact absurd hin (not_inCall_of_ownCode ht hu w)
  | newCoroutine hu => exact absurd hin (not_inCall_of_inUser hu w)
  | spawn hm hid => exact absurd hin (not_inCall_new (St.freeId_iff.mp hid).2 rfl w)
  | finish => exact absurd rfl hr
  | openFd hu => exact absurd hin (not_inCall_of_ownCode ht hu w)
  | closeFd hu => exact absurd hin (not_inCall_of_ownCode ht hu w)
  | run hm => exact absurd (idle_of_inMain hm).1 hr
  | advance hidle ha => cases ha <;> exact absurd hidle hr
  | start hidle hpc hf hid => exact absurd hin (not_inCall_new (St.freeId_iff.mp hid).2 rfl w)
  | resume hidle ht => exact ⟨_, _, rfl, hidle, ht⟩
  | resumeDead hidle => exact absurd hidle hr

namespace St

/-- The call has to wait, and `AddEventAndYield` registers the wait and yields. -/
def suspends (s : St) (call : IoCall) (sys : Sys) : Bool :=
  call.blocks sys && (s.saveToCoIdMap call.fd call.kind.spec.events).1

theorem suspends_of_slot {s : St} {call : IoCall} {sys : Sys} (hb : call.blocks sys = true)
    (hslot : s.slot call.fd call.kind.dir = -1) : s.suspends call sys = true := by
  unfold suspends
  rw [IoKind.spec_events, saveToCoIdMap_mask, if_pos hslot, hb]
  rfl

theorem suspends_of_taken {s : St} {call : IoCall} {sys : Sys}
    (hslot : s.slot call.fd call.kind.dir ≠ -1) : s.suspends call sys = false := by
  unfold suspends
  rw [IoKind.spec_events, saveToCoIdMap_mask, if_neg hslot, Bool.and_false]

theorem resumes_timeout {s : St} {now : Timestamp} (hidle : s.running = -1)
    (hpc : s.pc = .timeout now) (hne : s.timeoutSet.getExpired now ≠ -1) (env : Env) :
    s.resumes (.sched env) = some (s.timeoutSet.getExpired now, .timeout now) := by
  simp [resumes, hidle, loopCode, hpc, hne]

end St

theorem inCall_before {s s' : St} {a : Act} {id : Int} {call : IoCall} {reg : Nat}
    (hm : Move s a s') (hin : s'.InCall id (.io call reg)) :
    s.InCall id (.io call reg) ∨
      ∃ sys, a = .io call sys ∧ s.running = id ∧ s.registrations = reg ∧
        s.suspends call sys = true ∧ s'.registrations = s.registrations + 1 := by
  cases hm with
  | ioWait hu hc hopen hslot hupd hb =>
    rcases (inCall_insert_iff rfl).mp hin with ⟨rfl, hw⟩ | ⟨-, hin⟩
    · cases hw
      exact .inr ⟨_, rfl, rfl, rfl, St.suspends_of_slot hb hslot, rfl⟩
    · exact .inl hin
  | wakeCondition _ hc => exact .inl (inCall_of_insert rfl (by simp) hin)
  | wakeIo _ hc => exact .inl (inCall_of_insert rfl (by simp) hin)
  | conditionWait _ hc => exact .inl (inCall_of_insert rfl (by simp) hin)
  | spawn hm hid => exact .inl ((inCall_new_iff (St.freeId_iff.mp hid).2 rfl).mp hin)
  | finish hu => exact .inl ((inCall_exit_iff hu).mp hin)
  | advance hr ha => cases ha <;> exact .inl hin
  | start hr hpc hf hid => exact .inl ((inCall_new_iff (St.freeId_iff.mp hid).2 rfl).mp hin)
  | resume hr ht hid hc => exact .inl ((inCall_resume_iff hc rfl).mp hin)
  | _ => exact .inl hin

theorem exists_suspension {s₀ : St} (h₀ : ∀ id w, ¬ s₀.InCall id w) {acts : List Act} {s : St}
    {id : Int} {call : IoCall} {reg : Nat} (h : exec St.step s₀ acts = .next s) :
    s.InCall id (.io call reg) →
      ∃ pre sys s₁, pre ++ [.io call sys] <+: acts ∧ exec St.step s₀ pre = .next s₁ ∧
        s₁.running = id ∧ s₁.registrations = reg ∧ s₁.suspends call sys = true := by
  refine exec_induction (I := fun acts s => s.InCall id (.io call reg) →
      ∃ pre sys s₁, pre ++ [.io call sys] <+: acts ∧ exec St.step s₀ pre = .next s₁ ∧
        s₁.running = id ∧ s₁.registrations = reg ∧ s₁.suspends call sys = true)
    (fun hin => absurd hin (h₀ _ _)) ?_ h
  intro acts a s s' hpre ih hs hin
  rcases inCall_before (St.step_move hs) hin with hin | ⟨sys, rfl, hid, hreg, hsus, -⟩
  · obtain ⟨pre, sys, s₁, hp, hsusp⟩ := ih hin
    exact ⟨pre, sys, s₁, hp.trans (List.prefix_append _ _), hsusp⟩
  · exact ⟨acts, sys, s, List.prefix_rfl, hpre, hid, hreg, hsus⟩

theorem not_inCall_init {isOpen : Std.ExtTreeSet Int} (id : Int) (w : Wait) :
    ¬ (St.init isOpen).InCall id w := by
  rintro ⟨c, hc, -⟩
  simp [St.init] at hc

/-! ## Calls that return `-ETIME` -/

/-- The call that returns after the actions `pre`, in state `s`, has a timeout; it was suspended by
its own `AddEventAndYield`; and the last step was `RunTimeoutCo` resuming it, because its entry was
the one reported expired. -/
structure OwnTimeout (s₀ : St) (pre : List Act) (s : St) (call : IoCall) : Prop where
  timed : 0 < call.timeoutMs
  suspended : ∃ pre₁ sys s₁, pre₁ ++ [.io call sys] <+: pre ∧ exec St.step s₀ pre₁ = .next s₁ ∧
    s₁.running = s.running ∧ s₁.suspends call sys = true ∧
    s.InCall s.running (.io call s₁.registrations)
  expired : ∃ pre₂ env s₂ now, pre = pre₂ ++ [.sched env] ∧ exec St.step s₀ pre₂ = .next s₂ ∧
    s₂.resumes (.sched env) = some (s.running, .timeout now)

/-- The step is no rejected wait while a timeout is being handled. -/
def St.calm (s : St) : Act → Bool
  | .io call sys => !(s.rejects call sys && s.handlingTimeout)
  | _ => true

theorem exists_of_not_calm {s : St} {a : Act} (h : ¬ s.calm a = true) :
    ∃ call sys, a = .io call sys ∧ s.rejects call sys = true ∧ s.handlingTimeout = true := by
  cases a with
  | io call sys =>
    simp only [St.calm, Bool.not_eq_true', Bool.not_eq_false, Bool.and_eq_true] at h
    exact ⟨call, sys, rfl, h⟩
  | _ => exact absurd rfl h

theorem inUser_of_step_io {s s' : St} {call : IoCall} {sys : Sys}
    (h : s.step (.io call sys) = .next s') : s.inUser = true := by
  cases St.step_move h with
  | ioReturn hu | ioReject hu | ioWait hu => exact hu

/-- A rejected call returns what its second attempt gives, unless a timeout is being handled. -/
theorem returned_rejected {s s' : St} {call : IoCall} {sys : Sys}
    (hrej : s.rejects call sys = true) (h : s.step (.io call sys) = .next s') :
    s.returned (.io call sys) =
      some (call, if s.handlingTimeout then .etime else call.kind.spec.retry sys.retry) := by
  obtain ⟨-, c, hc, -⟩ := St.inUser_iff.mp (inUser_of_step_io h)
  obtain ⟨hb, hslot⟩ := St.rejects_iff.mp hrej
  simp only [St.step] at h
  split at h
  · simp only [St.returned]
    split at h
    · cases h
    · rename_i s₁ ret hio
      rw [hio]
      cases St.ioCall_ok hc hio with
      | returned hb' =>
        rw [hb] at hb'
        cases hb'
      | rejected => rfl
      | suspended _ _ hslot' => exact absurd hslot' hslot
  · cases h

theorem returned_of_rejects {s s' : St} {call : IoCall} {sys : Sys}
    (hrej : s.rejects call sys = true) (hflag : s.handlingTimeout = true)
    (h : s.step (.io call sys) = .next s') :
    s.inUser = true ∧ s.returned (.io call sys) = some (call, .etime) := by
  refine ⟨inUser_of_step_io h, ?_⟩
  rw [returned_rejected hrej h, if_pos hflag]

theorem returned_io_etime {s : St} {call call' : IoCall} {sys : Sys} (hu : s.inUser = true)
    (h : s.returned (.io call sys) = some (call', .etime)) :
    s.rejects call sys = true ∧ s.handlingTimeout = true := by
  obtain ⟨-, c, hc, -⟩ := St.inUser_iff.mp hu
  simp only [St.returned] at h
  split at h
  · rename_i s' ret hio
    cases h
    generalize hret : some Ret.etime = r at hio
    cases St.ioCall_ok hc hio with
    | returned hb hne =>
      cases hret
      exact absurd rfl hne
    | rejected hb hslot hupd =>
      refine ⟨St.rejects_iff.mpr ⟨hb, hslot⟩, ?_⟩
      by_contra hflag
      rw [if_neg hflag] at hret
      exact call.kind.retry_ne_etime _ (Option.some.inj hret).symm
    | suspended => cases hret
  · cases h

theorem returned_wake_etime {s : St} {call : IoCall} {retry : SysRet}
    (h : s.returned (.wake retry) = some (call, .etime)) :
    s.running ≠ -1 ∧ (∃ reg, s.InCall s.running (.io call reg)) ∧ s.handlingTimeout = true := by
  simp only [St.returned] at h
  split at h
  · rename_i call' reg hw
    obtain ⟨hr, c, hc, hw⟩ := St.resumedIn_some hw
    split at h
    · rename_i s' ret hcall
      cases h
      refine ⟨hr, ⟨reg, c, hc, hw⟩, ?_⟩
      rw [St.wakeCall, St.leaveCall_eq hc] at hcall
      obtain ⟨hret, -⟩ := St.finishCall_ok hcall
      by_contra hflag
      rw [if_neg hflag] at hret
      exact call.kind.retry_ne_etime _ hret.symm
    · cases h
  · cases h

theorem ownTimeout_of_wake {isOpen : Std.ExtTreeSet Int} {pre : List Act} {s : St} {call : IoCall}
    {reg : Nat} (h : exec St.step (St.init isOpen) pre = .next s) (hr : s.running ≠ -1)
    (hin : s.InCall s.running (.io call reg)) (hflag : s.handlingTimeout = true) :
    OwnTimeout (St.init isOpen) pre s call := by
  -- the last step of the run is the one that resumed the call
  obtain rfl | ⟨pre₂, a, rfl⟩ := pre.eq_nil_or_concat'
  · cases h
    exact absurd rfl hr
  obtain ⟨s₂, s', hpre, hs⟩ := exec_prefix h List.prefix_rfl
  have hlast := h
  rw [exec_snoc hpre, hs] at hlast
  cases hlast
  have hinv₂ : Inv s₂ := reach_inv (reach_of_exec hpre)
  obtain ⟨now, hnow⟩ := reach_alarm (reach_of_exec h) hflag
  obtain ⟨env, why, rfl, hidle, ht⟩ := resumed_by hinv₂.table (St.step_move hs) hr hin
  rw [hnow] at ht
  -- where it goes on in `RunTimeoutCo`, it resumed the expired entry
  generalize hid : s.running = id at ht
  cases ht with
  | timeout hpc hne =>
    refine ⟨?_, ?_, pre₂, env, s₂, now, rfl, hpre, ?_⟩
    · obtain ⟨e, he, hk⟩ := TimeoutSet.getExpired_mem hne
      obtain ⟨call', reg', hin', hms⟩ := hinv₂.timers.entry e he
      rcases inCall_before (St.step_move hs) hin with hin₂ | ⟨sys, ha, -⟩
      · rw [hid, ← hk] at hin₂
        cases hin'.unique hin₂
        exact hms
      · cases ha
    · obtain ⟨pre₁, sys, s₁, hp, h₁, hrun, rfl, hsus⟩ := exists_suspension not_inCall_init h hin
      exact ⟨pre₁, sys, s₁, hp, h₁, hrun, hsus, hin⟩
    · rw [hid]
      exact St.resumes_timeout hidle hpc hne env

/-- **`-ETIME` and rejected waits.** In every run, each call that returns `-ETIME` does so for its
own timeout, if and only if no wait of the run is rejected while a timeout is being handled. -/
theorem etime_own_iff {isOpen : Std.ExtTreeSet Int} {acts : List Act} {s' : St}
    (h : exec St.step (St.init isOpen) acts = .next s') :
    (∀ pre a s call, pre ++ [a] <+: acts → exec St.step (St.init isOpen) pre = .next s →
      s.returned a = some (call, .etime) → OwnTimeout (St.init isOpen) pre s call) ↔
    Along St.step (St.init isOpen) (fun s a => s.calm a = true) acts := by
  constructor
  · intro hown pre a s hp hpre
    obtain ⟨s₁, s₂, hpre', hs⟩ := exec_prefix h hp
    cases hpre.symm.trans hpre'
    by_contra hcalm
    obtain ⟨call, sys, rfl, hrej, hflag⟩ := exists_of_not_calm hcalm
    -- such a call returns `-ETIME`, and its coroutine is in no call
    obtain ⟨hu, hret⟩ := returned_of_rejects hrej hflag hs
    obtain ⟨pre₁, sys₁, s₃, -, -, -, -, hin⟩ := (hown pre _ s call hp hpre hret).suspended
    exact not_inCall_of_inUser hu _ hin
  · intro hcalm pre a s call hp hpre hret
    obtain ⟨s₁, s₂, hpre', hs⟩ := exec_prefix h hp
    cases hpre.symm.trans hpre'
    cases a with
    | io call' sys =>
      obtain ⟨hrej, hflag⟩ := returned_io_etime (inUser_of_step_io hs) hret
      have hc := hcalm pre _ s hp hpre
      simp [St.calm, hrej, hflag] at hc
    | wake retry =>
      obtain ⟨hr, ⟨reg, hin⟩, hflag⟩ := returned_wake_etime hret
      exact ownTimeout_of_wake hpre hr hin hflag
    | _ => cases hret

/-- Coroutine 0 waits for data on descriptor 5, coroutine 1 on descriptor 6 with a timeout of a
second; the timeout expires and coroutine 1 is resumed. -/
def expiredActs : List Act :=
  [.newCoroutine 0 0, .io ⟨.read, 5, 0, 1⟩ noData,
    .newCoroutine 1 1, .io ⟨.read, 6, 1000, 1⟩ noData,
    .run, .sched {}, .sched {}, .sched {}, .sched { now := ⟨1700000002, 0⟩ }, .sched {}]

theorem etime_own_expired :
    (St.after [5, 6] expiredActs).returned (.wake (.err .EAGAIN)) =
      some (⟨.read, 6, 1000, 1⟩, .etime) ∧
    OwnTimeout (St.initWith [5, 6]) expiredActs (St.after [5, 6] expiredActs)
      ⟨.read, 6, 1000, 1⟩ := by
  have hret : (St.after [5, 6] expiredActs).returned (.wake (.err .EAGAIN)) =
      some (⟨.read, 6, 1000, 1⟩, .etime) := by decide
  have hrun : exec St.step (St.initWith [5, 6]) (expiredActs ++ [.wake (.err .EAGAIN)]) = _ :=
    exec_after (by decide)
  exact ⟨hret, (etime_own_iff hrun).mpr (along_of_checkAlong (by decide)) _ _ _ _
    List.prefix_rfl (exec_after (by decide)) hret⟩

/-- After it has been told of its timeout, coroutine 1 reads descriptor 5 without one. -/
theorem etime_without_timeout :
    (exec St.step (St.initWith [5, 6])
      (expiredActs ++ [.wake (.err .EAGAIN), .io secondRead noData])).isNext = true ∧
    (St.after [5, 6] (expiredActs ++ [.wake (.err .EAGAIN)])).returned (.io secondRead noData) =
      some (secondRead, .etime) ∧
    secondRead.timeoutMs = 0 ∧
    ¬ OwnTimeout (St.initWith [5, 6]) (expiredActs ++ [.wake (.err .EAGAIN)])
      (St.after [5, 6] (expiredActs ++ [.wake (.err .EAGAIN)])) secondRead := by
  refine ⟨by decide, by decide, rfl, fun h => ?_⟩
  have := h.timed
  simp [secondRead] at this

end Net
end CoSocket
