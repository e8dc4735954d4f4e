import CoSocket.Net.Batch
import CoSocket.Net.EpollInterest

/-!
# Net.Closing

Closing a descriptor on which a coroutine waits. `TcpConnector::Close` and `TcpClient::Close` tell
the kernel and nobody else: the descriptor leaves the epoll set, and the slot, the timeout entry and
the suspended call stay.

Two things can come of it later. The coroutine is resumed, by its timeout or by an event of the
batch in progress, and its `DeleteEvent` gets `EBADF` from the kernel; or the kernel hands out the
number again, and a wait on the new socket finds the slot taken. `close_safe_iff` says that nothing
else goes wrong: a run keeps clear of both `abort` calls and of such rejections exactly when each of
its steps avoids these two (`avoidsClosed`).
-/

namespace CoSocket
namespace Net

open Base Lts

namespace St

/-- The step resumes no coroutine from a call on a descriptor that is closed by then. -/
def resumesOpen (s : St) (a : Act) : Bool :=
  match s.resumes a with
  | none => true
  | some (id, _) =>
    match s.co[id]?.bind (·.wait) with
    | some (.io call _) => s.kernel.isOpen.contains call.fd
    | _ => true

/-- The number of the descriptor that the step opens: a new socket, or an accepted one. -/
def handsOut (s : St) : Act → Option Int
  | .openFd fd => some fd
  | a =>
    match s.returned a with
    | some (call, .ok n) => if call.kind = .accept then some (n : Int) else none
    | _ => none

/-- The step opens no descriptor under a number whose watcher still has a coroutine. -/
def handsOutFree (s : St) (a : Act) : Bool :=
  match s.handsOut a with
  | none => true
  | some fd => !(s.watcher fd).hasReadCoroutine && !(s.watcher fd).hasWriteCoroutine

def avoidsClosed (s : St) (a : Act) : Bool := s.resumesOpen a && s.handsOutFree a

end St

/-- The descriptor was closed, in the course of the run, while the coroutine was in this call. -/
def Stale (s₀ : St) (acts : List Act) (id : Int) (call : IoCall) (reg : Nat) : Prop :=
  ∃ pre s, pre ++ [.closeFd call.fd] <+: acts ∧ exec St.step s₀ pre = .next s ∧
    s.InCall id (.io call reg)

/-- After the run `acts`, in state `s`: no step reaches one of the two `abort` calls, and no wait on
an open descriptor is rejected because of a coroutine that waits on an earlier one. -/
structure CloseSafe (s₀ : St) (acts : List Act) (s : St) : Prop where
  no_abort : ∀ a t, s.step a = .trapped t → t ≠ .addEvent ∧ t ≠ .deleteEvent
  no_stale : ∀ call sys, call.fd ∈ s.kernel.isOpen → s.rejects call sys = true →
    ∀ waiting reg, s.InCall (s.slot call.fd call.kind.dir) (.io waiting reg) →
      ¬ Stale s₀ acts (s.slot call.fd call.kind.dir) waiting reg

theorem Stale.mono {s₀ : St} {acts acts' : List Act} {id : Int} {call : IoCall} {reg : Nat}
    (h : Stale s₀ acts id call reg) (hp : acts <+: acts') : Stale s₀ acts' id call reg := by
  obtain ⟨pre, s, hpre, hs⟩ := h
  exact ⟨pre, s, hpre.trans hp, hs⟩

theorem stale_snoc {s₀ s : St} {acts : List Act} {a : Act} {id : Int} {call : IoCall} {reg : Nat}
    (hrun : exec St.step s₀ acts = .next s) (h : Stale s₀ (acts ++ [a]) id call reg) :
    Stale s₀ acts id call reg ∨ a = .closeFd call.fd ∧ s.InCall id (.io call reg) := by
  obtain ⟨pre, s₁, hp, hpre, hin⟩ := h
  rcases List.prefix_concat_iff.mp hp with he | hp
  · obtain ⟨rfl, hlast⟩ := List.append_inj' he rfl
    cases hlast
    rw [hrun] at hpre
    cases hpre
    exact .inr ⟨rfl, hin⟩
  · exact .inl ⟨pre, s₁, hp, hpre, hin⟩

/-! ## Resumed calls -/

theorem St.resumesOpen_iff {s : St} {a : Act} :
    s.resumesOpen a = true ↔ ∀ id why call reg, s.resumes a = some (id, why) →
      s.InCall id (.io call reg) → call.fd ∈ s.kernel.isOpen := by
  unfold St.resumesOpen
  constructor
  · intro h id why call reg hres hin
    obtain ⟨c, hc, hw⟩ := hin
    simpa [hres, hc, hw] using h
  · intro h
    split
    · rfl
    · rename_i id why hres
      split
      · rename_i call reg hw
        obtain ⟨c, hc, hw⟩ := Option.bind_eq_some_iff.mp hw
        exact Std.ExtTreeSet.contains_iff_mem.mpr (h id why call reg hres ⟨c, hc, hw⟩)
      · rfl

/-- A step that resumes a coroutine in a call: the coroutine runs, and is still in the call. -/
theorem resumes_step {s s' : St} {a : Act} {id : Int} {why : Why} {w : Wait}
    (hres : s.resumes a = some (id, why)) (hin : s.InCall id w) (hs : s.step a = .next s') :
    s'.running = id ∧ s'.kernel = s.kernel ∧ s'.InCall id w := by
  cases a with
  | sched env =>
    simp only [St.resumes] at hres
    simp only [St.step] at hs
    split at hs
    · rename_i hr
      rw [if_pos hr] at hres
      obtain ⟨⟨s₁, t⟩, hl, ht⟩ := Option.bind_eq_some_iff.mp hres
      simp only at ht
      subst ht
      rw [hl] at hs
      obtain ⟨c, hc, hw⟩ := hin
      obtain ⟨-, hres⟩ := St.coroutineResume_next hs
      rcases St.loopCode_some hl with ⟨it, func, -, -, hfree, rfl, -⟩ | ⟨pc', -, rfl⟩
      · rw [(St.freeId_iff.mp hfree).2] at hc
        cases hc
      · rcases hres with ⟨hn, -⟩ | ⟨c', hc', -, rfl⟩
        · rw [show s.co[id]? = none from hn] at hc
          cases hc
        · exact ⟨rfl, rfl, (inCall_resume_iff hc' rfl).mpr ⟨c, hc, hw⟩⟩
    · cases hs
  | _ => cases hres

theorem Target.resumes {s : St} {pc' : Pc} {id : Int} {why : Why} (hidle : s.running = -1)
    (h : Target s pc' id why) (env : Env) : s.resumes (.sched env) = some (id, why) := by
  cases h with
  | notified hpc hid => simp [St.resumes, hidle, St.loopCode, hpc, hid]
  | read hpc hw hid =>
    have hr : (s.watcher _).hasReadCoroutine = true := decide_eq_true hid
    simp [St.resumes, hidle, St.loopCode, hpc, hr, St.eventTarget, hw, hid]
  | write hpc hw hid => simp [St.resumes, hidle, St.loopCode, hpc, St.eventTarget, hw, hid]
  | timeout hpc hid => exact St.resumes_timeout hidle hpc hid env

theorem resumed_step {s s' : St} {a : Act} {w : Wait} (ht : Table s) (ht' : Table s')
    (hs : s.step a = .next s') (hin : s'.InCall s'.running w) :
    (∃ why, s.resumes a = some (s'.running, why)) ∧ s.InCall s'.running w ∧
      s'.kernel = s.kernel := by
  have hm := St.step_move hs
  have hpos := ht'.inCall_nonneg hin
  have hrun : s'.running ≠ -1 := by omega
  obtain ⟨env, why, rfl, hidle, htgt⟩ := resumed_by ht hm hrun hin
  refine ⟨⟨why, htgt.resumes hidle env⟩, ?_⟩
  cases hm with
  | resume hr ht hid hc => exact ⟨(inCall_resume_iff hc rfl).mp hin, rfl⟩
  | start hr hpc hf hid => exact absurd hin (not_inCall_new (St.freeId_iff.mp hid).2 rfl w)
  | resumeDead hr => exact absurd hr hrun
  | advance hr ha => cases ha <;> exact absurd hr hrun

/-- The end of a call on a closed descriptor: `DeleteEvent` calls `abort`. -/
theorem wake_closed {s : St} {call : IoCall} {reg : Nat} (ht : Table s)
    (hin : s.InCall s.running (.io call reg)) (hclosed : call.fd ∉ s.kernel.isOpen) :
    s.step (.wake (.err .EBADF)) = .trapped .deleteEvent := by
  have hpos := ht.inCall_nonneg hin
  obtain ⟨c, hc, hw⟩ := hin
  have hres : s.resumedIn = some (.io call reg) := by
    rw [St.resumedIn, if_neg (by omega), hc, Option.bind_some, hw]
  have hok : s.sysOk call.fd (.err .EBADF) = true := by simp [St.sysOk]
  have hwake : s.wakeCall call (.err .EBADF) = .error .deleteEvent := by
    rw [St.wakeCall, St.leaveCall_eq hc, St.finishCall, St.deleteEvent]
    simp only [Kernel.update_closed hclosed]
  simp only [St.step, hres, hok, hwake, if_true]

/-! ## Closed descriptors -/

theorem Kernel.update_isOpen {k k' : Kernel} {fd : Int} {events : UInt32}
    (h : k.update fd events = .ok k') : fd ∈ k.isOpen ∧ k'.isOpen = k.isOpen := by
  have hopen := Kernel.update_isOk_iff.mp ⟨k', h⟩
  obtain ⟨k'', hk, ho, -⟩ := Kernel.update_eq_ok hopen events
  rw [h] at hk
  cases hk
  exact ⟨hopen, ho⟩

theorem slot_of_closed {s s' : St} {a : Act} {fd : Int} (hm : Move s a s')
    (hclosed : fd ∉ s.kernel.isOpen) (d : Dir) : s'.slot fd d = s.slot fd d := by
  have hset : ∀ fd' d' coId, fd' ∈ s.kernel.isOpen →
      (s.setSlot fd' d' coId).slot fd d = s.slot fd d := by
    intro fd' d' coId hopen
    rw [St.slot_setSlot, if_neg]
    rintro ⟨rfl, -⟩
    exact hclosed hopen
  cases hm with
  | ioReject hu hopen | ioWait hu hc hopen => exact hset _ _ _ hopen
  | wakeIo hr hc hw hupd => exact hset _ _ _ (Kernel.update_isOpen hupd).1
  | advance hr ha => cases ha <;> rfl
  | _ => rfl

theorem inCall_of_closed {s s' : St} {a : Act} {id : Int} {call : IoCall} {reg : Nat}
    (ht : Table s) (hm : Move s a s') (hclosed : call.fd ∉ s.kernel.isOpen)
    (hin : s.InCall id (.io call reg)) : s'.InCall id (.io call reg) := by
  by_cases hid : id = s.running
  · subst hid
    obtain ⟨retry, rfl⟩ := wake_of_inCall ht hin hm
    cases hm with
    | wakeCondition hr hc hw => cases hin.unique ⟨_, hc, hw⟩
    | wakeIo hr hc hw hupd =>
      cases hin.unique ⟨_, hc, hw⟩
      exact absurd (Kernel.update_isOpen hupd).1 hclosed
  · exact inCall_kept hm hid hin

theorem settle_opens {s s' : St} {call : IoCall} {ret : Option Ret} {fd : Int}
    (h : s.settle call ret = .next s') :
    (fd ∉ s.kernel.isOpen ∧ fd ∈ s'.kernel.isOpen) ↔
      ∃ n : Nat, call.kind = .accept ∧ ret = some (.ok n) ∧ fd = n := by
  unfold St.settle at h
  split at h
  · rename_i n hk
    split at h
    · cases h
    · rename_i hn
      cases h
      rw [show ({ s with kernel := s.kernel.openFd n } : St).kernel.isOpen =
        (s.kernel.openFd n).isOpen from rfl, Kernel.mem_openFd]
      constructor
      · rintro ⟨hc, rfl | ho⟩
        · exact ⟨n, hk, rfl, rfl⟩
        · exact absurd ho hc
      · rintro ⟨n', -, hret, rfl⟩
        cases hret
        exact ⟨by simpa using hn, .inl rfl⟩
  · rename_i hne
    cases h
    constructor
    · rintro ⟨hc, ho⟩
      exact absurd ho hc
    · rintro ⟨n, hk, rfl, -⟩
      exact absurd rfl (hne n hk)

theorem finishCall_isOpen {s s' : St} {call : IoCall} {retry : SysRet} {ret : Ret}
    (h : s.finishCall call.kind.spec call retry = .ok (s', ret)) :
    s'.kernel.isOpen = s.kernel.isOpen := by
  obtain ⟨-, kernel, hupd, rfl⟩ := St.finishCall_ok h
  exact (Kernel.update_isOpen hupd).2

theorem ioCall_isOpen {s s' : St} {call : IoCall} {sys : Sys} {ret : Option Ret}
    (hu : s.inUser = true) (h : s.ioCall call sys = .ok (s', ret)) :
    s'.kernel.isOpen = s.kernel.isOpen := by
  obtain ⟨-, c, hc, -⟩ := St.inUser_iff.mp hu
  cases St.ioCall_ok hc h with
  | returned => rfl
  | rejected hb hslot hupd => exact (Kernel.update_isOpen hupd).2
  | suspended hb hc' hslot hupd => exact (Kernel.update_isOpen hupd).2

theorem handsOut_returned {s : St} {a : Act} {fd : Int} (ha : ∀ fd, a ≠ .openFd fd) :
    s.handsOut a = some fd ↔
      ∃ call, ∃ n : Nat, s.returned a = some (call, .ok n) ∧ call.kind = .accept ∧ fd = n := by
  unfold St.handsOut
  split
  · exact absurd rfl (ha _)
  · split
    · rename_i call n hret
      by_cases hk : call.kind = .accept
      · simp [hret, hk, eq_comm]
      · simp [hret, hk]
    · rename_i hne
      constructor
      · intro h
        cases h
      · rintro ⟨call, n, hret, -⟩
        exact absurd hret (hne call n)

theorem handsOut_nothing {s s' : St} {a : Act} {fd : Int} (ha : ∀ fd, a ≠ .openFd fd)
    (hret : s.returned a = none) (hsub : fd ∈ s'.kernel.isOpen → fd ∈ s.kernel.isOpen) :
    s.handsOut a = some fd ↔ fd ∉ s.kernel.isOpen ∧ fd ∈ s'.kernel.isOpen := by
  rw [handsOut_returned ha, hret]
  constructor
  · rintro ⟨call, n, h, -⟩
    cases h
  · rintro ⟨hc, ho⟩
    exact absurd (hsub ho) hc

/-- A call that returns: what `accept` returns is opened, and nothing else. -/
theorem handsOut_settle {s s₁ s' : St} {a : Act} {call : IoCall} {ret : Ret} {fd : Int}
    (ha : ∀ fd, a ≠ .openFd fd) (hret : s.returned a = some (call, ret))
    (hopen : s₁.kernel.isOpen = s.kernel.isOpen) (hs : s₁.settle call (some ret) = .next s') :
    s.handsOut a = some fd ↔ fd ∉ s.kernel.isOpen ∧ fd ∈ s'.kernel.isOpen := by
  rw [← hopen, settle_opens hs, handsOut_returned ha, hret]
  constructor
  · rintro ⟨call', n, he, hk, rfl⟩
    cases he
    exact ⟨n, hk, rfl, rfl⟩
  · rintro ⟨n, hk, he, rfl⟩
    cases he
    exact ⟨call, n, rfl, hk, rfl⟩

/-- The descriptor that the step hands out was closed before and is open afterwards, and it is the
only one. -/
theorem handsOut_iff {s s' : St} {a : Act} {fd : Int} (hs : s.step a = .next s') :
    s.handsOut a = some fd ↔ fd ∉ s.kernel.isOpen ∧ fd ∈ s'.kernel.isOpen := by
  cases a with
  | io call sys =>
    simp only [St.step] at hs
    split at hs
    · rename_i hg
      simp only [Bool.and_eq_true] at hg
      split at hs
      · cases hs
      · rename_i s₁ ret hio
        have hopen := ioCall_isOpen hg.1.1 hio
        cases ret with
        | none =>
          rw [St.settle_none] at hs
          cases hs
          exact handsOut_nothing (by simp) (by simp [St.returned, hio]) fun ho => hopen ▸ ho
        | some ret => exact handsOut_settle (by simp) (by simp [St.returned, hio]) hopen hs
    · cases hs
  | wake retry =>
    simp only [St.step] at hs
    split at hs
    · cases hs
    · rename_i hres
      cases hs
      refine handsOut_nothing (by simp) (by simp [St.returned, hres]) fun ho => ?_
      rwa [St.leaveCall_kernel] at ho
    · rename_i call reg hres
      split at hs
      · split at hs
        · cases hs
        · rename_i s₁ ret hcall
          have hopen := finishCall_isOpen hcall
          rw [St.leaveCall_kernel] at hopen
          exact handsOut_settle (by simp) (by simp [St.returned, hres, hcall]) hopen hs
      · cases hs
  | openFd fd' =>
    cases St.step_move hs with
    | openFd hu hfd =>
      simp only [St.handsOut, Option.some.injEq]
      constructor
      · rintro rfl
        exact ⟨hfd, Kernel.mem_openFd.mpr (.inl rfl)⟩
      · rintro ⟨hc, ho⟩
        exact (Kernel.mem_openFd.mp ho).resolve_right hc
  | closeFd fd' =>
    cases St.step_move hs with
    | closeFd hu =>
      exact handsOut_nothing (by simp) rfl fun ho => (Kernel.mem_closeFd.mp ho).2
  | sched env =>
    refine handsOut_nothing (by simp) rfl fun ho => ?_
    cases St.step_move hs with
    | advance hr ha => cases ha <;> exact ho
    | start | resume | resumeDead => exact ho
  | newCoroutine func id =>
    refine handsOut_nothing (by simp) rfl fun ho => ?_
    cases St.step_move hs <;> exact ho
  | conditionWait | conditionNotify | getCondition | finish | run =>
    refine handsOut_nothing (by simp) rfl fun ho => ?_
    cases St.step_move hs
    exact ho

theorem St.handsOutFree_iff {s : St} {a : Act} :
    s.handsOutFree a = true ↔ ∀ fd, s.handsOut a = some fd → ∀ d, s.slot fd d = -1 := by
  unfold St.handsOutFree
  cases hout : s.handsOut a with
  | none => simp
  | some fd =>
    simp only [Option.some.injEq, forall_eq', FdWatcher.hasReadCoroutine,
      FdWatcher.hasWriteCoroutine]
    constructor
    · intro h d
      cases d <;> simp_all [St.slot, FdWatcher.slot]
    · intro h
      have hr : (s.watcher fd).readCoId = -1 := h .read
      have hw : (s.watcher fd).writeCoId = -1 := h .write
      simp [hr, hw]

/-! ## Along a run -/

/-- Only `close` closes a descriptor. -/
theorem open_kept {s s' : St} {a : Act} {fd : Int} (hm : Move s a s')
    (hopen : fd ∈ s.kernel.isOpen) (ha : a ≠ .closeFd fd) : fd ∈ s'.kernel.isOpen := by
  cases hm with
  | ioReturn hu hk => exact hk.isOpen hopen
  | ioReject hu ho hslot hupd hk | wakeIo hr hc hw hupd hk =>
    exact hk.isOpen ((Kernel.update_isOpen hupd).2 ▸ hopen)
  | ioWait hu hc ho hslot hupd => exact (Kernel.update_isOpen hupd).2 ▸ hopen
  | openFd => exact Kernel.mem_openFd.mpr (.inr hopen)
  | closeFd => exact Kernel.mem_closeFd.mpr ⟨fun he => ha (he ▸ rfl), hopen⟩
  | advance hr ha => cases ha <;> exact hopen
  | _ => exact hopen

theorem open_of_wait {s s' : St} {call : IoCall} {sys : Sys} {w : Wait}
    (hm : Move s (.io call sys) s') (hin : s'.InCall s.running w) : call.fd ∈ s.kernel.isOpen := by
  cases hm with
  | ioReturn hu => exact absurd hin (not_inCall_of_inUser hu w)
  | ioReject hu hopen => exact hopen
  | ioWait hu hc hopen => exact hopen

/-- A coroutine in a slot was there before the step, or has just registered itself. -/
theorem slot_before {s s' : St} {a : Act} {fd : Int} {d : Dir} (hm : Move s a s')
    (hne : s'.slot fd d ≠ -1) :
    s.slot fd d = s'.slot fd d ∨ s.inUser = true ∧ s'.slot fd d = s.running := by
  have hset : ∀ fd' d' coId, (s.setSlot fd' d' coId).slot fd d ≠ -1 →
      s.slot fd d = (s.setSlot fd' d' coId).slot fd d ∨
        (s.setSlot fd' d' coId).slot fd d = coId := by
    intro fd' d' coId _
    rw [St.slot_setSlot]
    split
    · exact .inr rfl
    · exact .inl rfl
  cases hm with
  | ioReject | wakeIo => exact .inl ((hset _ _ _ hne).resolve_right hne)
  | ioWait hu => exact (hset _ _ _ hne).imp_right fun h => ⟨hu, h⟩
  | advance hr ha => cases ha <;> exact .inl rfl
  | _ => exact .inl rfl

theorem stale_of_closed {isOpen : Std.ExtTreeSet Int} {acts : List Act} {s : St} {id : Int}
    {call : IoCall} {reg : Nat} (hrun : exec St.step (St.init isOpen) acts = .next s) :
    s.InCall id (.io call reg) → call.fd ∉ s.kernel.isOpen →
      Stale (St.init isOpen) acts id call reg := by
  refine exec_induction (I := fun acts s => s.InCall id (.io call reg) →
    call.fd ∉ s.kernel.isOpen → Stale (St.init isOpen) acts id call reg)
    (fun hin => absurd hin (not_inCall_init id _)) ?_ hrun
  intro acts a s s' hpre ih hs hin hclosed
  have hm := St.step_move hs
  by_cases ha : a = .closeFd call.fd
  · subst ha
    rcases inCall_before hm hin with hin | ⟨sys, ha, -⟩
    · exact ⟨acts, s, List.prefix_rfl, hpre, hin⟩
    · cases ha
  · have hclosed₀ : call.fd ∉ s.kernel.isOpen := fun ho => hclosed (open_kept hm ho ha)
    rcases inCall_before hm hin with hin | ⟨sys, rfl, rfl, -⟩
    · exact (ih hin hclosed₀).mono (List.prefix_append _ _)
    · exact absurd (open_of_wait hm hin) hclosed₀

theorem stale_numbered {isOpen : Std.ExtTreeSet Int} {acts : List Act} {s : St} {id : Int}
    {call : IoCall} {reg : Nat} (hrun : exec St.step (St.init isOpen) acts = .next s) :
    Stale (St.init isOpen) acts id call reg → reg < s.registrations := by
  refine exec_induction (I := fun acts s => Stale (St.init isOpen) acts id call reg →
    reg < s.registrations) ?_ ?_ hrun
  · rintro ⟨pre, s, hp, -⟩
    simp at hp
  · intro acts a s s' hpre ih hs hstale
    have hle := registrations_le (St.step_move hs)
    rcases stale_snoc hpre hstale with hstale | ⟨-, hin⟩
    · have := ih hstale
      omega
    · have := (reach_numbered (reach_of_exec hpre)).wait id call reg hin
      omega

/-- A coroutine that goes on in a call finds its descriptor open. -/
theorem resumed_open {isOpen : Std.ExtTreeSet Int} {s : St}
    (h : Reach St.step (fun s a => s.avoidsClosed a = true) (St.init isOpen) s) :
    ∀ call reg, s.InCall s.running (.io call reg) → call.fd ∈ s.kernel.isOpen := by
  refine h.invariant (I := fun s => ∀ call reg, s.InCall s.running (.io call reg) →
    call.fd ∈ s.kernel.isOpen) (fun call reg hin => absurd hin (not_inCall_init _ _)) ?_
  intro s a s' hr _ havoid hs call reg hin
  have ht := (reach_inv hr).table
  obtain ⟨⟨why, hres⟩, hin, hk⟩ := resumed_step ht (table_move ht (St.step_move hs)) hs hin
  rw [hk]
  simp only [St.avoidsClosed, Bool.and_eq_true] at havoid
  exact St.resumesOpen_iff.mp havoid.1 _ why call reg hres hin

theorem slot_not_stale {isOpen : Std.ExtTreeSet Int} {acts : List Act} {s : St} {call : IoCall}
    {reg : Nat} (hrun : exec St.step (St.init isOpen) acts = .next s) :
    Along St.step (St.init isOpen) (fun s a => s.avoidsClosed a = true) acts →
      call.fd ∈ s.kernel.isOpen →
      s.InCall (s.slot call.fd call.kind.dir) (.io call reg) →
      ¬ Stale (St.init isOpen) acts (s.slot call.fd call.kind.dir) call reg := by
  refine exec_induction (I := fun acts s =>
    Along St.step (St.init isOpen) (fun s a => s.avoidsClosed a = true) acts →
      call.fd ∈ s.kernel.isOpen → s.InCall (s.slot call.fd call.kind.dir) (.io call reg) →
      ¬ Stale (St.init isOpen) acts (s.slot call.fd call.kind.dir) call reg) ?_ ?_ hrun
  · intro _ _ hin
    exact absurd hin (not_inCall_init _ _)
  · intro acts a s s' hpre ih hs havoid hopen hin hstale
    have hm := St.step_move hs
    have hinv := reach_inv (reach_of_exec hpre)
    have hpos := (table_move hinv.table hm).inCall_nonneg hin
    have hne : s'.slot call.fd call.kind.dir ≠ -1 := by omega
    rcases stale_snoc hpre hstale with hstale | ⟨rfl, -⟩
    · rcases inCall_before hm hin with hin₀ | ⟨sys, -, -, hreg, -⟩
      · -- the wait is an old one, and so is its slot
        rcases slot_before hm hne with hslot | ⟨hu, hslot⟩
        · have hopen₀ : call.fd ∈ s.kernel.isOpen := by
            by_contra hclosed
            have hfree := havoid acts a s List.prefix_rfl hpre
            simp only [St.avoidsClosed, Bool.and_eq_true] at hfree
            have hout := (handsOut_iff hs).mpr ⟨hclosed, hopen⟩
            have := St.handsOutFree_iff.mp hfree.2 _ hout call.kind.dir
            omega
          rw [← hslot] at hin₀ hstale
          exact ih (havoid.take (List.prefix_append _ _)) hopen₀ hin₀ hstale
        · rw [hslot] at hin₀
          exact not_inCall_of_inUser hu _ hin₀
      · -- the wait is new, and everything stale has an older number
        have := stale_numbered hpre hstale
        omega
    · cases hm with
      | closeFd hu => exact (Kernel.mem_closeFd.mp hopen).1 rfl

theorem closeSafe_of_avoidsClosed {isOpen : Std.ExtTreeSet Int} {acts : List Act} {s : St}
    (hrun : exec St.step (St.init isOpen) acts = .next s)
    (havoid : Along St.step (St.init isOpen) (fun s a => s.avoidsClosed a = true) acts) :
    CloseSafe (St.init isOpen) acts s := by
  have hreach := havoid.reach hrun
  constructor
  · intro a t ht
    rcases step_trapped (resumed_open hreach) ht with rfl | rfl <;> simp
  · intro call sys hopen hrej waiting reg hin
    obtain ⟨-, hne⟩ := St.rejects_iff.mp hrej
    obtain ⟨waiting', reg', hin', hfd, hdir⟩ := (reach_inv hreach).slots _ _ hne
    cases hin.unique hin'
    rw [← hfd, ← hdir] at hin ⊢
    exact slot_not_stale hrun havoid (hfd ▸ hopen) hin

/-- A call that has to wait, on `fd` in direction `d`. -/
def waitFor (fd : Int) : Dir → IoCall
  | .read => ⟨.read, fd, 0, 1⟩
  | .write => ⟨.write, fd, 0, 1⟩

@[simp] theorem waitFor_fd (fd : Int) (d : Dir) : (waitFor fd d).fd = fd := by
  cases d <;> rfl

@[simp] theorem waitFor_dir (fd : Int) (d : Dir) : (waitFor fd d).kind.dir = d := by
  cases d <;> rfl

theorem rejects_waitFor {s : St} {fd : Int} {d : Dir} (hne : s.slot fd d ≠ -1) :
    s.rejects (waitFor fd d) noData = true := by
  rw [St.rejects_iff, waitFor_fd, waitFor_dir]
  refine ⟨?_, hne⟩
  cases d <;> rfl

/-- After a step that resumes a call on a closed descriptor, the process is about to stop. -/
theorem not_closeSafe_of_resumed {s₀ s s' : St} {acts : List Act} {a : Act} {id : Int} {why : Why}
    {call : IoCall} {reg : Nat} (ht' : Table s') (hs : s.step a = .next s')
    (hres : s.resumes a = some (id, why)) (hin : s.InCall id (.io call reg))
    (hclosed : call.fd ∉ s.kernel.isOpen) : ¬ CloseSafe s₀ acts s' := by
  intro hsafe
  obtain ⟨rfl, hk, hin'⟩ := resumes_step hres hin hs
  exact (hsafe.no_abort _ _ (wake_closed ht' hin' (hk ▸ hclosed))).2 rfl

/-- After a step that hands out a number with a coroutine in one of its slots, a wait on the new
descriptor is rejected. -/
theorem not_closeSafe_of_handsOut {isOpen : Std.ExtTreeSet Int} {acts : List Act} {s s' : St}
    {a : Act} {fd : Int} {d : Dir} (hrun : exec St.step (St.init isOpen) acts = .next s)
    (hs : s.step a = .next s') (hout : s.handsOut a = some fd) (hne : s.slot fd d ≠ -1) :
    ¬ CloseSafe (St.init isOpen) (acts ++ [a]) s' := by
  intro hsafe
  have hm := St.step_move hs
  have hinv := reach_inv (reach_of_exec hrun)
  obtain ⟨hclosed, hopen⟩ := (handsOut_iff hs).mp hout
  obtain ⟨call, reg, hin, rfl, rfl⟩ := hinv.slots fd d hne
  have hslot := slot_of_closed hm hclosed call.kind.dir
  have hin' := inCall_of_closed hinv.table hm hclosed hin
  have hstale := (stale_of_closed hrun hin hclosed).mono (List.prefix_append acts [a])
  rw [← hslot] at hne hin' hstale
  have hno := hsafe.no_stale (waitFor call.fd call.kind.dir) noData
  simp only [waitFor_fd, waitFor_dir] at hno
  exact hno hopen (rejects_waitFor hne) call reg hin' hstale

/-- **Closing.** In every run, whoever closes what and when: the process keeps clear of both `abort`
calls, and no wait is rejected because of a coroutine that waits on an earlier descriptor of the
same number, in any state of the run, if and only if no step resumes a coroutine from a call on a
descriptor that is closed by then, or opens a descriptor under a number that still has a waiter. -/
theorem close_safe_iff {isOpen : Std.ExtTreeSet Int} {acts : List Act} {s' : St}
    (hrun : exec St.step (St.init isOpen) acts = .next s') :
    (∀ pre s, pre <+: acts → exec St.step (St.init isOpen) pre = .next s →
      CloseSafe (St.init isOpen) pre s) ↔
    Along St.step (St.init isOpen) (fun s a => s.avoidsClosed a = true) acts := by
  constructor
  · intro hsafe pre a s hp hpre
    obtain ⟨s₁, s₂, hpre', hs⟩ := exec_prefix hrun hp
    rw [hpre] at hpre'
    cases hpre'
    have hafter := hsafe _ s₂ hp (exec_snoc_eq_next.mpr ⟨s, hpre, hs⟩)
    have ht := (reach_inv (reach_of_exec hpre)).table
    simp only [St.avoidsClosed, Bool.and_eq_true]
    constructor
    · rw [St.resumesOpen_iff]
      intro id why call reg hres hin
      by_contra hclosed
      exact not_closeSafe_of_resumed (table_move ht (St.step_move hs)) hs hres hin hclosed hafter
    · rw [St.handsOutFree_iff]
      intro fd hout d
      by_contra hne
      exact not_closeSafe_of_handsOut hpre hs hout hne hafter
  · intro havoid pre s hp hpre
    exact closeSafe_of_avoidsClosed hpre (havoid.take hp)

/-- A descriptor that is closed only while nobody waits on it leaves nothing behind. -/
theorem avoidsClosed_of_sparesWaiters {isOpen : Std.ExtTreeSet Int} {s s' : St} {a : Act}
    (h : Reach St.step (fun s a => s.sparesWaiters a = true) (St.init isOpen) s)
    (hs : s.step a = .next s') : s.avoidsClosed a = true := by
  have hset := reach_epollSet h
  simp only [St.avoidsClosed, Bool.and_eq_true]
  constructor
  · rw [St.resumesOpen_iff]
    intro id why call reg _ hin
    exact hset.opened id call reg hin
  · rw [St.handsOutFree_iff]
    intro fd hout d
    by_contra hne
    obtain ⟨call, reg, hin, rfl, -⟩ := (reach_inv h).slots fd d hne
    exact ((handsOut_iff hs).mp hout).1 (hset.opened _ call reg hin)

/-- Coroutine 0 waits for data on descriptor 5 with a timeout, and coroutine 1 closes it. -/
def closedUnderReader : List Act := twoReaders ++ [.closeFd 5]

theorem close_safe_reader :
    CloseSafe (St.initWith [5]) closedUnderReader (St.after [5] closedUnderReader) := by
  have hrun : exec St.step (St.initWith [5]) closedUnderReader =
      .next (St.after [5] closedUnderReader) := exec_after (by decide)
  exact (close_safe_iff hrun).mpr (along_of_checkAlong (by decide)) _ _ List.prefix_rfl hrun

/-- The timeout of the reader expires, and the main loop resumes it. -/
def expiredReader : List Act :=
  closedUnderReader ++ [.finish, .run, .sched {}, .sched {}, .sched {},
    .sched { now := ⟨1700000002, 0⟩ }, .sched {}]

/-- The kernel gives the number to a new socket. -/
def reopened : List Act := closedUnderReader ++ [.openFd 5]

/-- The expired reader takes the process to `abort`; or its slot gets the first wait on the new
socket rejected. -/
theorem close_unsafe_reader :
    (St.after [5] expiredReader).step (.wake (.err .EBADF)) = .trapped .deleteEvent ∧
    ¬ CloseSafe (St.initWith [5]) expiredReader (St.after [5] expiredReader) ∧
    (St.after [5] reopened).rejects secondRead noData = true ∧
    ¬ CloseSafe (St.initWith [5]) reopened (St.after [5] reopened) := by
  have htrap : (St.after [5] expiredReader).step (.wake (.err .EBADF)) = .trapped .deleteEvent :=
    Outcome.eq_trapped_of_trap (by decide)
  refine ⟨htrap, fun hsafe => (hsafe.no_abort _ _ htrap).2 rfl, by decide, ?_⟩
  exact not_closeSafe_of_handsOut (d := .read) (exec_after (by decide))
    (step_after (by decide) (by decide)) rfl (by decide)

end Net
end CoSocket
