import CoSocket.Net.Scheduler

/-!
# Net.Moves

What a step can do, said once. `Move s a s'` lists the effects a step has on the state, guards
included, and `step_move` says a step has one of them; the invariants are proved over `Move` and do
not look into the code again.

The first part computes the registration functions at the mask of one direction: the wait is
rejected when the slot is taken, and otherwise the slot is set; `DeleteEvent` empties the slot
whoever it belongs to.
-/

namespace CoSocket
namespace Net

open Base Lts

/-! ## Registration, by direction -/

theorem hasEvent_bits :
    hasEvent EPOLLIN EPOLLIN = true ∧ hasEvent EPOLLIN EPOLLOUT = false ∧
      hasEvent EPOLLOUT EPOLLIN = false ∧ hasEvent EPOLLOUT EPOLLOUT = true := by
  decide

namespace St

theorem saveToCoIdMap_mask (s : St) (fd : Int) (d : Dir) :
    s.saveToCoIdMap fd d.mask =
      if s.slot fd d = -1 then (true, s.setSlot fd d s.running) else (false, s) := by
  obtain ⟨h1, h2, h3, h4⟩ := hasEvent_bits
  cases d with
  | read =>
    simp only [saveToCoIdMap, Dir.mask, h1, h2, slot, FdWatcher.slot, FdWatcher.hasReadCoroutine]
    by_cases h : (s.watcher fd).readCoId = -1
    · simp [h, setSlot, FdWatcher.setSlot, FdWatcher.setReadCoId]
    · simp [h]
  | write =>
    simp only [saveToCoIdMap, Dir.mask, h3, h4, slot, FdWatcher.slot, FdWatcher.hasWriteCoroutine]
    by_cases h : (s.watcher fd).writeCoId = -1
    · simp [h, setSlot, FdWatcher.setSlot, FdWatcher.setWriteCoId]
    · simp [h]

theorem resetInCoIdMap_mask (s : St) (fd : Int) (d : Dir) :
    s.resetInCoIdMap fd d.mask = s.setSlot fd d (-1) := by
  obtain ⟨h1, h2, h3, h4⟩ := hasEvent_bits
  cases d with
  | read => simp [resetInCoIdMap, Dir.mask, h1, h2, setSlot, FdWatcher.setSlot,
      FdWatcher.resetReadCoId]
  | write => simp [resetInCoIdMap, Dir.mask, h3, h4, setSlot, FdWatcher.setSlot,
      FdWatcher.resetWriteCoId]

theorem watcher_setSlot (s : St) (fd : Int) (d : Dir) (coId : Int) :
    (s.setSlot fd d coId).watcher fd = (s.watcher fd).setSlot d coId := by
  simp [setSlot, watcher_setWatcher]

theorem getEvents_setSlot (s : St) (fd : Int) (d : Dir) :
    s.getEvents fd &&& ~~~d.mask = (s.setSlot fd d (-1)).getEvents fd := by
  rw [getEvents, getEvents, watcher_setSlot, FdWatcher.events_and_not_mask]

/-- `DeleteEvent` at one direction: the kernel gets the events without it, and its slot is empty
afterwards. -/
theorem deleteEvent_mask_ok {s s' : St} {fd : Int} {d : Dir}
    (h : s.deleteEvent fd d.mask = .ok s') :
    ∃ kernel, s.kernel.update fd ((s.setSlot fd d (-1)).getEvents fd) = .ok kernel ∧
      s' = { s.setSlot fd d (-1) with kernel } := by
  unfold deleteEvent at h
  simp only [getEvents_setSlot] at h
  split at h
  · cases h
  · rename_i kernel hk
    cases h
    exact ⟨kernel, hk, by rw [resetInCoIdMap_mask]; rfl⟩

theorem deleteEvent_mask_error {s : St} {fd : Int} {d : Dir} {t : Trap}
    (h : s.deleteEvent fd d.mask = .error t) :
    t = .deleteEvent ∧ fd ∉ s.kernel.isOpen := by
  unfold deleteEvent at h
  simp only at h
  split at h
  · rename_i e he
    cases h
    refine ⟨rfl, fun ho => ?_⟩
    obtain ⟨k', hk, -⟩ := Kernel.update_eq_ok ho (s.getEvents fd &&& ~~~d.mask)
    rw [hk] at he
    cases he
  · cases h

theorem addEventAndYield_taken {s : St} {call : IoCall} {d : Dir} (hs : s.slot call.fd d ≠ -1) :
    s.addEventAndYield call d.mask = .ok (false, s) := by
  unfold addEventAndYield
  rw [saveToCoIdMap_mask, if_neg hs]

theorem addEventAndYield_free {s : St} {call : IoCall} {d : Dir} (hs : s.slot call.fd d = -1) :
    s.addEventAndYield call d.mask =
      match s.kernel.update call.fd ((s.setSlot call.fd d s.running).getEvents call.fd) with
      | .error _ => .error .addEvent
      | .ok kernel =>
        .ok (true, { s.setSlot call.fd d s.running with
          kernel
          registrations := s.registrations + 1 }.coroutineYield (.io call s.registrations)) := by
  unfold addEventAndYield
  rw [saveToCoIdMap_mask, if_pos hs]
  rfl

theorem addEventAndYield_rejected {s s' : St} {call : IoCall} {d : Dir}
    (h : s.addEventAndYield call d.mask = .ok (false, s')) :
    s.slot call.fd d ≠ -1 ∧ s' = s := by
  by_cases hs : s.slot call.fd d = -1
  · rw [addEventAndYield_free hs] at h
    split at h <;> cases h
  · rw [addEventAndYield_taken hs] at h
    cases h
    exact ⟨hs, rfl⟩

theorem addEventAndYield_suspended {s s' : St} {call : IoCall} {d : Dir} {c : Coroutine}
    (h : s.addEventAndYield call d.mask = .ok (true, s')) (hc : s.co[s.running]? = some c) :
    s.slot call.fd d = -1 ∧
    ∃ kernel, s.kernel.update call.fd ((s.setSlot call.fd d s.running).getEvents call.fd) =
        .ok kernel ∧
      s' = { s.setSlot call.fd d s.running with
        kernel
        registrations := s.registrations + 1
        running := -1
        co := s.co.insert s.running
          { c with status := .COROUTINE_SUSPEND, wait := some (.io call s.registrations) } } := by
  by_cases hs : s.slot call.fd d = -1
  · rw [addEventAndYield_free hs] at h
    split at h
    · cases h
    · rename_i kernel hk
      refine ⟨hs, kernel, hk, ?_⟩
      simp only [coroutineYield, setSlot, setWatcher, hc] at h
      cases h
      rfl
  · rw [addEventAndYield_taken hs] at h
    cases h

theorem addEventAndYield_error {s : St} {call : IoCall} {d : Dir} {t : Trap}
    (h : s.addEventAndYield call d.mask = .error t) :
    t = .addEvent ∧ call.fd ∉ s.kernel.isOpen := by
  by_cases hs : s.slot call.fd d = -1
  · rw [addEventAndYield_free hs] at h
    split at h
    · rename_i e he
      cases h
      refine ⟨rfl, fun ho => ?_⟩
      obtain ⟨k', hk, -⟩ := Kernel.update_eq_ok ho
        ((s.setSlot call.fd d s.running).getEvents call.fd)
      rw [hk] at he
      cases he
    · cases h
  · rw [addEventAndYield_taken hs] at h
    cases h

end St

theorem IoKind.spec_events (k : IoKind) : k.spec.events = k.dir.mask := by
  cases k <;> rfl

theorem St.ioCall_eq (s : St) (call : IoCall) (sys : Sys) :
    s.ioCall call sys = .ok (s, some (.ok 0)) ∧ call.kind = .write ∧ call.size = 0 ∨
      s.ioCall call sys = s.blockingCall call.kind.spec call sys ∧
        ¬ (call.kind = .write ∧ call.size = 0) := by
  cases hk : call.kind with
  | connect => exact .inr ⟨by rw [St.ioCall, hk]; rfl, by simp⟩
  | accept => exact .inr ⟨by rw [St.ioCall, hk]; rfl, by simp⟩
  | read => exact .inr ⟨by rw [St.ioCall, hk]; rfl, by simp⟩
  | write =>
    by_cases hs : call.size = 0
    · exact .inl ⟨by simp [St.ioCall, hk, St.write, hs], rfl, hs⟩
    · exact .inr ⟨by simp [St.ioCall, hk, St.write, hs, IoKind.spec], by simp [hs]⟩

theorem IoKind.first_ne_etime (k : IoKind) (r : SysRet) : k.spec.first r ≠ some .etime := by
  cases k <;> cases r <;>
    simp only [IoKind.spec, connectSpec, acceptSpec, readSpec, writeSpec, CallSpec.onErrors] <;>
    (repeat' split) <;> simp

theorem IoKind.retry_ne_etime (k : IoKind) (r : SysRet) : k.spec.retry r ≠ .etime := by
  cases k <;> cases r <;>
    simp [IoKind.spec, connectSpec, acceptSpec, readSpec, writeSpec, CallSpec.onErrors]

theorem IoKind.first_none_ne_ebadf {k : IoKind} {r : SysRet} (h : k.spec.first r = none) :
    r ≠ .err .EBADF := by
  rintro rfl
  cases k <;> revert h <;> decide

/-- The call has something to do, and its first attempt is not the last one. -/
def IoCall.blocks (call : IoCall) (sys : Sys) : Bool :=
  !(call.kind = .write && call.size = 0) && (call.kind.spec.first sys.first).isNone

theorem IoCall.blocks_iff {call : IoCall} {sys : Sys} :
    call.blocks sys = true ↔
      ¬ (call.kind = .write ∧ call.size = 0) ∧ call.kind.spec.first sys.first = none := by
  unfold IoCall.blocks
  rw [Bool.and_eq_true, Option.isNone_iff_eq_none, Bool.not_eq_true', Bool.eq_false_iff, Ne,
    Bool.and_eq_true, decide_eq_true_eq, decide_eq_true_eq]

/-! ## Moves -/

/-- The kernel after a call that may have been an `accept`. -/
def Settled (k k' : Kernel) : Prop := k' = k ∨ ∃ fd, fd ∉ k.isOpen ∧ k' = k.openFd fd

theorem Settled.interest {k k' : Kernel} (h : Settled k k') : k'.interest = k.interest := by
  rcases h with rfl | ⟨fd, -, rfl⟩
  · rfl
  · rfl

theorem Settled.isOpen {k k' : Kernel} (h : Settled k k') {fd : Int} (hfd : fd ∈ k.isOpen) :
    fd ∈ k'.isOpen := by
  rcases h with rfl | ⟨fd', -, rfl⟩
  · exact hfd
  · exact Kernel.mem_openFd.mpr (.inr hfd)

/-- The timeout entries with the guard of a call made by `id` in force. -/
def TimeoutSet.guarded (t : TimeoutSet) (id timeoutMs : Int) (now : Timestamp) : TimeoutSet :=
  if timeoutMs > 0 then t.insert id timeoutMs now else t

/-- The timeout entries after that guard is gone. -/
def TimeoutSet.unguarded (t : TimeoutSet) (id timeoutMs : Int) : TimeoutSet :=
  if timeoutMs > 0 then t.delete id else t

/-- The main loop resumes `id` for the reason `why` and goes on at `pc'` afterwards. -/
inductive Target (s : St) : Pc → Int → Why → Prop where
  | notified {it : Nat} {id : Int} (hpc : s.pc = .waitResume it)
      (hid : s.waitResumeList[it]? = some id) : Target s (.waitResume (it + 1)) id .notified
  | read {since : Nat} {fd : Int} {events : UInt32} {rest : List (Int × UInt32)}
      (hpc : s.pc = .batch since ((fd, events) :: rest)) (hw : wakes events .read = true)
      (hid : s.slot fd .read ≠ -1) :
      Target s (.eventOut since fd events rest) (s.slot fd .read) (.event fd .read)
  | write {since : Nat} {fd : Int} {events : UInt32} {rest : List (Int × UInt32)}
      (hpc : s.pc = .eventOut since fd events rest) (hw : wakes events .write = true)
      (hid : s.slot fd .write ≠ -1) :
      Target s (.batch since rest) (s.slot fd .write) (.event fd .write)
  | timeout {now : Timestamp} (hpc : s.pc = .timeout now)
      (hid : s.timeoutSet.getExpired now ≠ -1) :
      Target s (.timeout now) (s.timeoutSet.getExpired now) (.timeout now)

/-- The main loop gets to its next point without resuming anybody. -/
inductive Advance (s : St) (env : Env) : St → Prop where
  | newCoFunc {it : Nat} (hpc : s.pc = .newCoFunc it) (hend : s.coFuncList[it]? = none) :
      Advance s env { s with coFuncList := [], pc := .waitResume 0 }
  | waitResume {it : Nat} (hpc : s.pc = .waitResume it) (hend : s.waitResumeList[it]? = none) :
      Advance s env { s with waitResumeList := [], pc := .poll }
  | poll (hpc : s.pc = .poll) : Advance s env { s with pc := .batch s.registrations env.batch }
  | batchEnd {since : Nat} (hpc : s.pc = .batch since []) :
      Advance s env { s with handlingTimeout := true, pc := .timeout env.now }
  | batchSkip {since : Nat} {fd : Int} {events : UInt32} {rest : List (Int × UInt32)}
      (hpc : s.pc = .batch since ((fd, events) :: rest)) :
      Advance s env { s with pc := .batch since rest }
  | eventOut {since : Nat} {fd : Int} {events : UInt32} {rest : List (Int × UInt32)}
      (hpc : s.pc = .batch since ((fd, events) :: rest)) :
      Advance s env { s with pc := .eventOut since fd events rest }
  | eventEnd {since : Nat} {fd : Int} {events : UInt32} {rest : List (Int × UInt32)}
      (hpc : s.pc = .eventOut since fd events rest) :
      Advance s env { s with pc := .batch since rest }
  | timeoutEnd {now : Timestamp} (hpc : s.pc = .timeout now)
      (hid : s.timeoutSet.getExpired now = -1) :
      Advance s env { s with handlingTimeout := false, pc := .newCoFunc 0 }

/-- The effects of a step, one constructor for each way it can go. -/
inductive Move (s : St) : Act → St → Prop where
  | ioReturn {call : IoCall} {sys : Sys} {kernel : Kernel} (hu : s.inUser = true)
      (hk : Settled s.kernel kernel) (hb : call.blocks sys = false) :
      Move s (.io call sys) { s with kernel }
  | ioReject {call : IoCall} {sys : Sys} {kernel kernel' : Kernel} (hu : s.inUser = true)
      (hopen : call.fd ∈ s.kernel.isOpen) (hslot : s.slot call.fd call.kind.dir ≠ -1)
      (hupd : s.kernel.update call.fd
        ((s.setSlot call.fd call.kind.dir (-1)).getEvents call.fd) = .ok kernel)
      (hk : Settled kernel kernel') (hb : call.blocks sys = true) :
      Move s (.io call sys) { s with
        coIdMap := (s.setSlot call.fd call.kind.dir (-1)).coIdMap
        timeoutSet := (s.timeoutSet.guarded s.running call.timeoutMs sys.now).unguarded
          s.running call.timeoutMs
        kernel := kernel' }
  | ioWait {call : IoCall} {sys : Sys} {kernel : Kernel} {c : Coroutine} (hu : s.inUser = true)
      (hc : s.co[s.running]? = some c) (hopen : call.fd ∈ s.kernel.isOpen)
      (hslot : s.slot call.fd call.kind.dir = -1)
      (hupd : s.kernel.update call.fd
        ((s.setSlot call.fd call.kind.dir s.running).getEvents call.fd) = .ok kernel)
      (hb : call.blocks sys = true) :
      Move s (.io call sys) { s with
        coIdMap := (s.setSlot call.fd call.kind.dir s.running).coIdMap
        timeoutSet := s.timeoutSet.guarded s.running call.timeoutMs sys.now
        kernel
        registrations := s.registrations + 1
        running := -1
        co := s.co.insert s.running
          { c with status := .COROUTINE_SUSPEND, wait := some (.io call s.registrations) } }
  | wakeCondition {retry : SysRet} {c : Coroutine} {condition : Nat} (hr : s.running ≠ -1)
      (hc : s.co[s.running]? = some c) (hw : c.wait = some (.condition condition)) :
      Move s (.wake retry) { s with co := s.co.insert s.running { c with wait := none } }
  | wakeIo {retry : SysRet} {c : Coroutine} {call : IoCall} {registration : Nat}
      {kernel kernel' : Kernel} (hr : s.running ≠ -1) (hc : s.co[s.running]? = some c)
      (hw : c.wait = some (.io call registration))
      (hupd : s.kernel.update call.fd
        ((s.setSlot call.fd call.kind.dir (-1)).getEvents call.fd) = .ok kernel)
      (hk : Settled kernel kernel') :
      Move s (.wake retry) { s with
        coIdMap := (s.setSlot call.fd call.kind.dir (-1)).coIdMap
        timeoutSet := s.timeoutSet.unguarded s.running call.timeoutMs
        kernel := kernel'
        co := s.co.insert s.running { c with wait := none } }
  | conditionWait {condition : Nat} {c : Coroutine} (hu : s.inUser = true)
      (hc : s.co[s.running]? = some c) :
      Move s (.conditionWait condition) { s with
        conditionMap := s.conditionMap.insert (conditionKey condition)
          ((s.waiters (conditionKey condition)).insert s.running)
        running := -1
        co := s.co.insert s.running
          { c with status := .COROUTINE_SUSPEND, wait := some (.condition condition) } }
  | conditionNotify {condition : Nat} (hu : (s.inUser || s.inMain) = true) :
      Move s (.conditionNotify condition) (s.conditionNotify condition)
  | getCondition (hu : (s.inUser || s.inMain) = true) :
      Move s .getCondition { s with conditionCounter := s.conditionCounter + 1 }
  | newCoroutine {func : CoFunction} {id : Int} (hu : s.inUser = true) :
      Move s (.newCoroutine func id) { s with coFuncList := s.coFuncList ++ [func] }
  | spawn {func : CoFunction} {id : Int} (hm : s.inMain = true) (hid : s.freeId id = true) :
      Move s (.newCoroutine func id) { s with
        running := id
        co := (s.co.insert id { func }).insert id { func, status := .COROUTINE_RUNNING } }
  | finish (hu : s.inUser = true) : Move s .finish s.coroutineExit
  | openFd {fd : Int} (hu : (s.inUser || s.inMain) = true) (hfd : fd ∉ s.kernel.isOpen) :
      Move s (.openFd fd) { s with kernel := s.kernel.openFd fd }
  | closeFd {fd : Int} (hu : (s.inUser || s.inMain) = true) :
      Move s (.closeFd fd) { s with kernel := s.kernel.closeFd fd }
  | run (hm : s.inMain = true) : Move s .run { s with pc := .newCoFunc 0 }
  | advance {env : Env} {s' : St} (hr : s.running = -1) (ha : Advance s env s') :
      Move s (.sched env) s'
  | start {env : Env} {it : Nat} {func : CoFunction} (hr : s.running = -1)
      (hpc : s.pc = .newCoFunc it) (hf : s.coFuncList[it]? = some func)
      (hid : s.freeId env.id = true) :
      Move s (.sched env) { s with
        pc := .newCoFunc (it + 1)
        running := env.id
        co := (s.co.insert env.id { func }).insert env.id
          { func, status := .COROUTINE_RUNNING } }
  | resume {env : Env} {pc' : Pc} {id : Int} {why : Why} {c : Coroutine} (hr : s.running = -1)
      (ht : Target s pc' id why) (hid : 0 ≤ id) (hc : s.co[id]? = some c)
      (hst : c.status ≠ .COROUTINE_RUNNING) :
      Move s (.sched env) { s with
        pc := pc'
        running := id
        co := s.co.insert id { c with status := .COROUTINE_RUNNING } }
  | resumeDead {env : Env} {pc' : Pc} {id : Int} {why : Why} (hr : s.running = -1)
      (ht : Target s pc' id why) (hc : s.co[id]? = none) :
      Move s (.sched env) { s with pc := pc' }

/-! ## Every step is a move -/

namespace St

theorem setTimeout_eq (s : St) (timeoutMs : Int) (now : Timestamp) :
    s.setTimeout timeoutMs now =
      { s with timeoutSet := s.timeoutSet.guarded s.running timeoutMs now } := by
  unfold setTimeout TimeoutSet.guarded
  split <;> rfl

theorem unsetTimeout_eq (s : St) (timeoutMs : Int) :
    s.unsetTimeout timeoutMs =
      { s with timeoutSet := s.timeoutSet.unguarded s.running timeoutMs } := by
  unfold unsetTimeout TimeoutSet.unguarded
  split <;> rfl

/-- The end of a call: the value says whether a timeout is being handled, and the slot of the
call's direction is empty. -/
theorem finishCall_ok {s s' : St} {call : IoCall} {retry : SysRet} {ret : Ret}
    (h : s.finishCall call.kind.spec call retry = .ok (s', ret)) :
    ret = (if s.handlingTimeout then .etime else call.kind.spec.retry retry) ∧
    ∃ kernel, s.kernel.update call.fd
        ((s.setSlot call.fd call.kind.dir (-1)).getEvents call.fd) = .ok kernel ∧
      s' = { s with
        coIdMap := (s.setSlot call.fd call.kind.dir (-1)).coIdMap
        timeoutSet := s.timeoutSet.unguarded s.running call.timeoutMs
        kernel } := by
  unfold finishCall at h
  rw [IoKind.spec_events] at h
  simp only at h
  split at h
  · cases h
  · rename_i s₁ hd
    obtain ⟨kernel, hk, rfl⟩ := deleteEvent_mask_ok hd
    rw [unsetTimeout_eq] at h
    cases h
    refine ⟨?_, kernel, hk, rfl⟩
    cases s.handlingTimeout <;> rfl

theorem finishCall_error {s : St} {call : IoCall} {retry : SysRet} {t : Trap}
    (h : s.finishCall call.kind.spec call retry = .error t) :
    t = .deleteEvent ∧ call.fd ∉ s.kernel.isOpen := by
  unfold finishCall at h
  rw [IoKind.spec_events] at h
  simp only at h
  split at h
  · rename_i t' hd
    cases h
    exact deleteEvent_mask_error hd
  · cases h

/-- How a blocking call can go: it returns at once, it is rejected and returns after a second
attempt, or it suspends the coroutine. -/
inductive IoResult (s : St) (call : IoCall) (sys : Sys) : St → Option Ret → Prop where
  | returned {ret : Ret} (hb : call.blocks sys = false) (hne : ret ≠ .etime) :
      IoResult s call sys s (some ret)
  | rejected {kernel : Kernel} (hb : call.blocks sys = true)
      (hslot : s.slot call.fd call.kind.dir ≠ -1)
      (hupd : s.kernel.update call.fd
        ((s.setSlot call.fd call.kind.dir (-1)).getEvents call.fd) = .ok kernel) :
      IoResult s call sys
        { s with
          coIdMap := (s.setSlot call.fd call.kind.dir (-1)).coIdMap
          timeoutSet := (s.timeoutSet.guarded s.running call.timeoutMs sys.now).unguarded
            s.running call.timeoutMs
          kernel }
        (some (if s.handlingTimeout then .etime else call.kind.spec.retry sys.retry))
  | suspended {kernel : Kernel} {c : Coroutine} (hb : call.blocks sys = true)
      (hc : s.co[s.running]? = some c) (hslot : s.slot call.fd call.kind.dir = -1)
      (hupd : s.kernel.update call.fd
        ((s.setSlot call.fd call.kind.dir s.running).getEvents call.fd) = .ok kernel) :
      IoResult s call sys
        { s with
          coIdMap := (s.setSlot call.fd call.kind.dir s.running).coIdMap
          timeoutSet := s.timeoutSet.guarded s.running call.timeoutMs sys.now
          kernel
          registrations := s.registrations + 1
          running := -1
          co := s.co.insert s.running
            { c with status := .COROUTINE_SUSPEND, wait := some (.io call s.registrations) } }
        none

theorem ioCall_ok {s s' : St} {call : IoCall} {sys : Sys} {ret : Option Ret} {c : Coroutine}
    (hc : s.co[s.running]? = some c) (h : s.ioCall call sys = .ok (s', ret)) :
    IoResult s call sys s' ret := by
  rcases ioCall_eq s call sys with ⟨he, hk, hs⟩ | ⟨he, hne⟩
  · rw [he] at h
    cases h
    exact .returned (by simp [IoCall.blocks, hk, hs]) (by simp)
  rw [he, blockingCall] at h
  split at h
  · rename_i r hr
    cases h
    refine .returned (by simp [IoCall.blocks, hr]) fun he => ?_
    exact call.kind.first_ne_etime sys.first (he ▸ hr)
  · rename_i hf
    have hb : call.blocks sys = true := IoCall.blocks_iff.mpr ⟨hne, hf⟩
    rw [setTimeout_eq, IoKind.spec_events] at h
    split at h
    · cases h
    · rename_i s₁ ha
      cases h
      obtain ⟨hslot, kernel, hupd, rfl⟩ := addEventAndYield_suspended ha hc
      exact .suspended hb hc hslot hupd
    · rename_i s₁ ha
      obtain ⟨hslot, rfl⟩ := addEventAndYield_rejected ha
      split at h
      · cases h
      · rename_i s₂ r hfin
        cases h
        obtain ⟨rfl, kernel, hupd, rfl⟩ := finishCall_ok hfin
        exact .rejected hb hslot hupd

theorem inUser_iff {s : St} :
    s.inUser = true ↔ s.running ≠ -1 ∧ ∃ c, s.co[s.running]? = some c ∧ c.wait = none := by
  unfold inUser
  split
  · rename_i c hc
    simp [hc]
  · rename_i hc
    simp [hc]

theorem settle_next {s s' : St} {call : IoCall} {ret : Option Ret}
    (h : s.settle call ret = .next s') :
    ∃ kernel, Settled s.kernel kernel ∧ s' = { s with kernel } := by
  unfold settle at h
  split at h
  · split at h
    · cases h
    · rename_i hn
      cases h
      exact ⟨_, .inr ⟨_, by simpa using hn, rfl⟩, rfl⟩
  · cases h
    exact ⟨s.kernel, .inl rfl, rfl⟩

theorem settle_none (s : St) (call : IoCall) : s.settle call none = .next s := by
  unfold settle
  cases call.kind <;> rfl

theorem sysOk_open {s : St} {fd : Int} {ret : SysRet} (h : s.sysOk fd ret = true)
    (hne : ret ≠ .err .EBADF) : fd ∈ s.kernel.isOpen := by
  simpa [sysOk, hne] using h

theorem open_of_blocks {s : St} {call : IoCall} {sys : Sys} (hb : call.blocks sys = true)
    (h : s.sysOk call.fd sys.first = true) : call.fd ∈ s.kernel.isOpen :=
  sysOk_open h (IoKind.first_none_ne_ebadf (IoCall.blocks_iff.mp hb).2)

theorem io_move {s s' : St} {call : IoCall} {sys : Sys} (h : s.step (.io call sys) = .next s') :
    Move s (.io call sys) s' := by
  simp only [step] at h
  split at h
  · rename_i hg
    simp only [Bool.and_eq_true] at hg
    obtain ⟨⟨hu, hsys⟩, -⟩ := hg
    obtain ⟨-, c, hc, -⟩ := inUser_iff.mp hu
    split at h
    · cases h
    · rename_i s₁ ret hio
      cases ioCall_ok hc hio with
      | returned hb _ =>
        obtain ⟨kernel, hset, rfl⟩ := settle_next h
        exact .ioReturn hu hset hb
      | rejected hb hslot hupd =>
        obtain ⟨kernel, hset, rfl⟩ := settle_next h
        exact .ioReject hu (open_of_blocks hb hsys) hslot hupd hset hb
      | suspended hb hc' hslot hupd =>
        rw [settle_none] at h
        cases h
        exact .ioWait hu hc' (open_of_blocks hb hsys) hslot hupd hb
  · cases h

theorem resumedIn_some {s : St} {w : Wait} (h : s.resumedIn = some w) :
    s.running ≠ -1 ∧ ∃ c, s.co[s.running]? = some c ∧ c.wait = some w := by
  unfold resumedIn at h
  split at h
  · cases h
  · rename_i hr
    obtain ⟨c, hc, hw⟩ := Option.bind_eq_some_iff.mp h
    exact ⟨hr, c, hc, hw⟩

theorem leaveCall_eq {s : St} {c : Coroutine} (hc : s.co[s.running]? = some c) :
    s.leaveCall = { s with co := s.co.insert s.running { c with wait := none } } := by
  simp only [leaveCall, hc]

theorem wake_move {s s' : St} {retry : SysRet} (h : s.step (.wake retry) = .next s') :
    Move s (.wake retry) s' := by
  simp only [step] at h
  split at h
  · cases h
  · rename_i condition hw
    cases h
    obtain ⟨hr, c, hc, hw⟩ := resumedIn_some hw
    rw [leaveCall_eq hc]
    exact .wakeCondition hr hc hw
  · rename_i call registration hw
    obtain ⟨hr, c, hc, hw⟩ := resumedIn_some hw
    split at h
    · split at h
      · cases h
      · rename_i s₁ ret hcall
        obtain ⟨kernel, hset, rfl⟩ := settle_next h
        rw [wakeCall, leaveCall_eq hc] at hcall
        obtain ⟨-, kernel', hupd, rfl⟩ := finishCall_ok hcall
        exact .wakeIo hr hc hw hupd hset
    · cases h

/-- `coroutine_resume` with no coroutine running: it switches to a coroutine that is not running
already, and does nothing when the id is not live. -/
theorem coroutineResume_next {s s' : St} {id : Int} (h : s.coroutineResume id = .next s') :
    0 ≤ id ∧ (s.co[id]? = none ∧ s' = s ∨
      ∃ c, s.co[id]? = some c ∧ c.status ≠ .COROUTINE_RUNNING ∧
        s' = { s with
          running := id
          co := s.co.insert id { c with status := .COROUTINE_RUNNING } }) := by
  unfold coroutineResume at h
  split at h
  · cases h
  · rename_i hg
    refine ⟨by omega, ?_⟩
    split at h
    · rename_i hc
      cases h
      exact .inl ⟨hc, rfl⟩
    · rename_i c hc
      split at h
      · rename_i hst
        cases h
        exact .inr ⟨c, hc, by simp [hst], rfl⟩
      · rename_i hst
        cases h
        exact .inr ⟨c, hc, by simp [hst], rfl⟩
      · cases h

theorem loopCode_none {s s' : St} {env : Env} (h : s.loopCode env = some (s', none)) :
    Advance s env s' := by
  unfold loopCode at h
  split at h
  · cases h
  · rename_i it hpc
    split at h
    · split at h <;> cases h
    · rename_i hend
      cases h
      exact .newCoFunc hpc hend
  · rename_i it hpc
    split at h
    · cases h
    · rename_i hend
      cases h
      exact .waitResume hpc hend
  · rename_i hpc
    cases h
    exact .poll hpc
  · rename_i since hpc
    cases h
    exact .batchEnd hpc
  · rename_i since fd events rest hpc
    simp only at h
    split at h
    · cases h
      exact .batchSkip hpc
    · simp only [Option.some.injEq, Prod.mk.injEq] at h
      obtain ⟨rfl, -⟩ := h
      exact .eventOut hpc
  · rename_i since fd events rest hpc
    simp only [Option.some.injEq, Prod.mk.injEq] at h
    obtain ⟨rfl, -⟩ := h
    exact .eventEnd hpc
  · rename_i now hpc
    simp only at h
    split at h
    · rename_i hid
      cases h
      exact .timeoutEnd hpc hid
    · cases h

theorem eventTarget_some {s : St} {fd id : Int} {events : UInt32} {d : Dir} {why : Why}
    (h : s.eventTarget fd events d = some (id, why)) :
    wakes events d = true ∧ s.slot fd d ≠ -1 ∧ id = s.slot fd d ∧ why = .event fd d := by
  unfold eventTarget at h
  split at h
  · rename_i hg
    cases h
    simp only [Bool.and_eq_true, decide_eq_true_eq] at hg
    exact ⟨hg.1, hg.2, rfl, rfl⟩
  · cases h

/-- A piece of the main loop that resumes `id`: it starts a new coroutine, or `id` is a target. -/
theorem loopCode_some {s s' : St} {env : Env} {id : Int} {why : Why}
    (h : s.loopCode env = some (s', some (id, why))) :
    (∃ it func, s.pc = .newCoFunc it ∧ s.coFuncList[it]? = some func ∧ s.freeId env.id = true ∧
      id = env.id ∧ why = .start ∧
      s' = { s.coroutineNew env.id func with pc := .newCoFunc (it + 1) }) ∨
    ∃ pc', Target s pc' id why ∧ s' = { s with pc := pc' } := by
  unfold loopCode at h
  split at h
  · cases h
  · rename_i it hpc
    split at h
    · rename_i func hf
      split at h
      · rename_i hid
        cases h
        exact .inl ⟨it, func, hpc, hf, hid, rfl, rfl, rfl⟩
      · cases h
    · cases h
  · rename_i it hpc
    split at h
    · rename_i coId hid
      cases h
      exact .inr ⟨_, .notified hpc hid, rfl⟩
    · cases h
  · cases h
  · cases h
  · rename_i since fd events rest hpc
    simp only at h
    split at h
    · cases h
    · simp only [Option.some.injEq, Prod.mk.injEq] at h
      obtain ⟨rfl, ht⟩ := h
      obtain ⟨hw, hid, rfl, rfl⟩ := eventTarget_some ht
      exact .inr ⟨_, .read hpc hw hid, rfl⟩
  · rename_i since fd events rest hpc
    simp only [Option.some.injEq, Prod.mk.injEq] at h
    obtain ⟨rfl, ht⟩ := h
    obtain ⟨hw, hid, rfl, rfl⟩ := eventTarget_some ht
    exact .inr ⟨_, .write hpc hw hid, rfl⟩
  · rename_i now hpc
    simp only at h
    split at h
    · cases h
    · rename_i hid
      cases h
      refine .inr ⟨_, .timeout hpc hid, ?_⟩
      rw [← hpc]

theorem freeId_iff {s : St} {id : Int} : s.freeId id = true ↔ 0 ≤ id ∧ s.co[id]? = none := by
  unfold freeId
  rw [Bool.and_eq_true, decide_eq_true_eq, Bool.not_eq_true', Bool.eq_false_iff, Ne,
    Std.ExtTreeMap.contains_eq_isSome_getElem?]
  cases s.co[id]? <;> simp

/-- A step of the main loop, with the resumption it makes: it resumes nobody, it starts a new
coroutine, or it resumes a target, which may be gone. -/
theorem sched_cases {s s' : St} {env : Env} (h : s.step (.sched env) = .next s') :
    s.running = -1 ∧
    ((s.resumes (.sched env) = none ∧ Advance s env s') ∨
      (∃ it func, s.resumes (.sched env) = some (env.id, .start) ∧ s.pc = .newCoFunc it ∧
        s.coFuncList[it]? = some func ∧ s.freeId env.id = true ∧
        s' = { s with
          pc := .newCoFunc (it + 1)
          running := env.id
          co := (s.co.insert env.id { func }).insert env.id
            { func, status := .COROUTINE_RUNNING } }) ∨
      ∃ pc' id why, s.resumes (.sched env) = some (id, why) ∧ Target s pc' id why ∧ 0 ≤ id ∧
        (s.co[id]? = none ∧ s' = { s with pc := pc' } ∨
          ∃ c, s.co[id]? = some c ∧ c.status ≠ .COROUTINE_RUNNING ∧
            s' = { s with
              pc := pc'
              running := id
              co := s.co.insert id { c with status := .COROUTINE_RUNNING } })) := by
  simp only [step] at h
  split at h
  · rename_i hr
    refine ⟨hr, ?_⟩
    rw [show s.resumes (.sched env) = (s.loopCode env).bind (·.2) by
      simp only [resumes, hr, if_true]]
    split at h
    · cases h
    · rename_i s₁ hl
      cases h
      exact .inl ⟨by rw [hl]; rfl, loopCode_none hl⟩
    · rename_i s₁ id why hl
      obtain ⟨hid, hres⟩ := coroutineResume_next h
      have hsome : (s.loopCode env).bind (·.2) = some (id, why) := by rw [hl]; rfl
      rcases loopCode_some hl with ⟨it, func, hpc, hf, hfree, rfl, rfl, rfl⟩ | ⟨pc', ht, rfl⟩
      · have hnew : (s.co.insert env.id { func })[env.id]? = some { func } := by simp
        rcases hres with ⟨hn, -⟩ | ⟨c, hc, hst, rfl⟩
        · simp [coroutineNew] at hn
        · have : c = { func } := by
            simp only [coroutineNew, hnew] at hc
            exact (Option.some.inj hc).symm
          subst this
          exact .inr (.inl ⟨it, func, hsome, hpc, hf, hfree, rfl⟩)
      · refine .inr (.inr ⟨pc', id, why, hsome, ht, hid, ?_⟩)
        rcases hres with ⟨hn, rfl⟩ | ⟨c, hc, hst, rfl⟩
        · exact .inl ⟨hn, rfl⟩
        · exact .inr ⟨c, hc, hst, rfl⟩
  · cases h

theorem sched_move {s s' : St} {env : Env} (h : s.step (.sched env) = .next s') :
    Move s (.sched env) s' := by
  obtain ⟨hr, ⟨-, ha⟩ | ⟨it, func, -, hpc, hf, hfree, rfl⟩ |
    ⟨pc', id, why, -, ht, hid, ⟨hn, rfl⟩ | ⟨c, hc, hst, rfl⟩⟩⟩ := sched_cases h
  · exact .advance hr ha
  · exact .start hr hpc hf hfree
  · exact .resumeDead hr ht hn
  · exact .resume hr ht hid hc hst

theorem newCoroutine_move {s s' : St} {func : CoFunction} {id : Int}
    (h : s.step (.newCoroutine func id) = .next s') : Move s (.newCoroutine func id) s' := by
  simp only [step] at h
  split at h
  · rename_i hu
    cases h
    exact .newCoroutine hu
  · split at h
    · rename_i hg
      simp only [Bool.and_eq_true] at hg
      obtain ⟨-, hn | ⟨c, hc, -, rfl⟩⟩ := coroutineResume_next h
      · simp [coroutineNew] at hn
      · have hnew : (s.co.insert id { func })[id]? = some { func } := by simp
        have : c = { func } := by
          simp only [coroutineNew, hnew] at hc
          exact (Option.some.inj hc).symm
        subst this
        exact .spawn hg.1 hg.2
    · cases h

/-- **Every step is a move.** -/
theorem step_move {s s' : St} {a : Act} (h : s.step a = .next s') : Move s a s' := by
  cases a with
  | io call sys => exact io_move h
  | wake retry => exact wake_move h
  | conditionWait condition =>
    simp only [step] at h
    split at h
    · rename_i hu
      obtain ⟨-, c, hc, -⟩ := inUser_iff.mp hu
      simp only [St.conditionWait, coroutineYield, setWaiters, hc] at h
      cases h
      exact .conditionWait hu hc
    · cases h
  | conditionNotify condition =>
    simp only [step] at h
    split at h
    · rename_i hu
      cases h
      exact .conditionNotify hu
    · cases h
  | getCondition =>
    simp only [step] at h
    split at h
    · rename_i hu
      unfold St.getCondition at h
      split at h <;> cases h
      exact .getCondition hu
    · cases h
  | newCoroutine func id => exact newCoroutine_move h
  | finish =>
    simp only [step] at h
    split at h
    · rename_i hu
      cases h
      exact .finish hu
    · cases h
  | openFd fd =>
    simp only [step] at h
    split at h
    · rename_i hg
      cases h
      simp only [Bool.and_eq_true, Bool.not_eq_true', Bool.eq_false_iff] at hg
      exact .openFd hg.1.1 fun hm => hg.2 (Std.ExtTreeSet.contains_iff_mem.mpr hm)
    · cases h
  | closeFd fd =>
    simp only [step] at h
    split at h
    · rename_i hu
      cases h
      exact .closeFd hu
    · cases h
  | run =>
    simp only [step] at h
    split at h
    · rename_i hm
      cases h
      exact .run hm
    · cases h
  | sched env => exact sched_move h

end St

end Net
end CoSocket
