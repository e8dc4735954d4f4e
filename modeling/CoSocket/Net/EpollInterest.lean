import CoSocket.Net.Registries

/-!
# Net.EpollInterest

The epoll set against `m_coIdMap`. `AddEventAndYield` fills the slot first and then computes the
mask from it; `DeleteEvent` computes the mask first and then empties the slot; both end in the same
relation between the two maps (`EpollSet.interest`). The calls of `abort` after a failed `Update`
are for closed descriptors only, and a coroutine waits on an open one as long as nobody closes it.

The runs here are those in which no descriptor is closed while a coroutine waits on it
(`sparesWaiters`).
-/

namespace CoSocket
namespace Net

open Base Lts

/-- The interest that belongs to a watcher: one event for each coroutine it has, and no entry when
it has none. -/
def FdWatcher.interest (w : FdWatcher) : Option UInt32 :=
  match w.hasReadCoroutine, w.hasWriteCoroutine with
  | false, false => none
  | true, false => some EPOLLIN
  | false, true => some EPOLLOUT
  | true, true => some (EPOLLIN ||| EPOLLOUT)

theorem FdWatcher.interest_eq (w : FdWatcher) :
    w.interest = if w.events = 0 then none else some w.events := by
  unfold FdWatcher.interest FdWatcher.events
  cases w.hasReadCoroutine <;> cases w.hasWriteCoroutine <;> decide

namespace St

/-- Some coroutine is in a call on the descriptor. -/
def awaited (s : St) (fd : Int) : Bool :=
  s.co.toList.any fun p =>
    match p.2.wait with
    | some (.io call _) => call.fd = fd
    | _ => false

/-- The step does not close a descriptor that a coroutine waits on. -/
def sparesWaiters (s : St) : Act → Bool
  | .closeFd fd => !s.awaited fd
  | _ => true

theorem awaited_of_inCall {s : St} {id : Int} {call : IoCall} {reg : Nat}
    (h : s.InCall id (.io call reg)) : s.awaited call.fd = true := by
  obtain ⟨c, hc, hw⟩ := h
  unfold awaited
  rw [List.any_eq_true]
  exact ⟨(id, c), Std.ExtTreeMap.mem_toList_iff_getElem?_eq_some.mpr hc, by simp [hw]⟩

end St

/-! ## The two maps, along a run -/

structure EpollSet (s : St) : Prop where
  interest : ∀ fd, s.kernel.interest[fd]? = (s.watcher fd).interest
  opened : ∀ id call reg, s.InCall id (.io call reg) → call.fd ∈ s.kernel.isOpen

theorem epollSet_init (isOpen : Std.ExtTreeSet Int) : EpollSet (St.init isOpen) where
  interest fd := by simp [St.init, St.watcher, FdWatcher.interest, FdWatcher.hasReadCoroutine,
    FdWatcher.hasWriteCoroutine]
  opened id call reg h := by
    obtain ⟨c, hc, -⟩ := h
    simp [St.init] at hc

/-- A step that leaves watchers and interests alone and opens descriptors, if it does anything. -/
theorem EpollSet.frame {s s' : St} (h : EpollSet s) (hw : s'.coIdMap = s.coIdMap)
    (hi : s'.kernel.interest = s.kernel.interest)
    (ho : ∀ fd, fd ∈ s.kernel.isOpen → fd ∈ s'.kernel.isOpen)
    (hin : ∀ id call reg, s'.InCall id (.io call reg) → s.InCall id (.io call reg)) :
    EpollSet s' where
  interest fd := by
    rw [hi, h.interest]
    simp only [St.watcher, hw]
  opened id call reg hc := ho _ (h.opened id call reg (hin id call reg hc))

theorem EpollSet.update {s s' : St} (h : EpollSet s) {fd coId : Int} {d : Dir}
    {kernel : Kernel} (hopen : fd ∈ s.kernel.isOpen)
    (hupd : s.kernel.update fd ((s.setSlot fd d coId).getEvents fd) = .ok kernel)
    (hw : s'.coIdMap = (s.setSlot fd d coId).coIdMap)
    (hk : Settled kernel s'.kernel)
    (hin : ∀ id call reg, s'.InCall id (.io call reg) →
      s.InCall id (.io call reg) ∨ call.fd = fd) : EpollSet s' := by
  obtain ⟨k', hk', ho, hint⟩ :=
    Kernel.update_eq_ok hopen ((s.setSlot fd d coId).getEvents fd)
  rw [hupd] at hk'
  cases hk'
  constructor
  · intro fd'
    have hwat : s'.watcher fd' = (s.setSlot fd d coId).watcher fd' := by
      simp only [St.watcher, hw]
    rw [hk.interest, hint, hwat]
    split
    · rename_i he
      subst he
      rw [FdWatcher.interest_eq]
      rfl
    · rename_i hne
      rw [h.interest, St.setSlot, St.watcher_setWatcher, if_neg hne]
  · intro id call reg hc
    refine hk.isOpen (ho ▸ ?_)
    rcases hin id call reg hc with hc | he
    · exact h.opened id call reg hc
    · exact he ▸ hopen

theorem slot_of_not_awaited {s : St} (h : Slots s) {fd : Int} (hfd : s.awaited fd = false)
    (d : Dir) : s.slot fd d = -1 := by
  by_contra hne
  obtain ⟨call, reg, hin, rfl, -⟩ := h fd d hne
  rw [St.awaited_of_inCall hin] at hfd
  cases hfd

theorem epollSet_close {s : St} (h : EpollSet s) (hs : Slots s) {fd : Int}
    (hfd : s.awaited fd = false) : EpollSet { s with kernel := s.kernel.closeFd fd } := by
  constructor
  · intro fd'
    show (s.kernel.closeFd fd).interest[fd']? = (s.watcher fd').interest
    rw [Kernel.closeFd_interest]
    split
    · rename_i he
      subst he
      have hr : (s.watcher fd).readCoId = -1 := slot_of_not_awaited hs hfd .read
      have hw : (s.watcher fd).writeCoId = -1 := slot_of_not_awaited hs hfd .write
      rw [FdWatcher.interest_eq, if_pos ((FdWatcher.events_eq_zero_iff _).mpr ⟨hr, hw⟩)]
    · exact h.interest fd'
  · intro id call reg hin
    refine Kernel.mem_closeFd.mpr ⟨?_, h.opened id call reg hin⟩
    rintro rfl
    have ha : s.awaited call.fd = true := St.awaited_of_inCall hin
    rw [hfd] at ha
    cases ha

theorem epollSet_move {s s' : St} {a : Act} (h : EpollSet s) (hs : Slots s)
    (hsp : s.sparesWaiters a = true) (hm : Move s a s') : EpollSet s' := by
  cases hm with
  | ioReturn _ hk => exact h.frame rfl hk.interest (fun _ => hk.isOpen) fun _ _ _ hc => hc
  | ioReject _ hopen _ hupd hk => exact h.update hopen hupd rfl hk fun _ _ _ hc => .inl hc
  | @ioWait call _ _ _ _ hc hopen _ hupd =>
    refine h.update hopen hupd rfl (.inl rfl) fun id call' reg hin => ?_
    rcases (inCall_insert_iff rfl).mp hin with ⟨-, hw⟩ | ⟨-, hin⟩
    · cases hw
      exact .inr rfl
    · exact .inl hin
  | wakeIo _ hc hw hupd hk =>
    exact h.update (h.opened _ _ _ ⟨_, hc, hw⟩) hupd rfl hk fun _ _ _ hin =>
      .inl (inCall_of_insert rfl (by simp) hin)
  | wakeCondition _ hc =>
    exact h.frame rfl rfl (fun _ => id) fun _ _ _ hin => inCall_of_insert rfl (by simp) hin
  | conditionWait _ hc =>
    exact h.frame rfl rfl (fun _ => id) fun _ _ _ hin => inCall_of_insert rfl (by simp) hin
  | spawn hm hid =>
    exact h.frame rfl rfl (fun _ => id) fun _ _ _ hin =>
      (inCall_new_iff (St.freeId_iff.mp hid).2 rfl).mp hin
  | finish hu =>
    exact h.frame rfl rfl (fun _ => id) fun _ _ _ hin => (inCall_exit_iff hu).mp hin
  | openFd =>
    exact h.frame rfl rfl (fun _ hfd => Kernel.mem_openFd.mpr (.inr hfd)) fun _ _ _ hin => hin
  | closeFd => exact epollSet_close h hs (by simpa [St.sparesWaiters] using hsp)
  | advance hr ha => cases ha <;> exact ⟨h.interest, h.opened⟩
  | start hr hpc hf hid =>
    exact h.frame rfl rfl (fun _ => id) fun _ _ _ hin =>
      (inCall_new_iff (St.freeId_iff.mp hid).2 rfl).mp hin
  | resume hr ht hid hc =>
    exact h.frame rfl rfl (fun _ => id) fun _ _ _ hin => (inCall_resume_iff hc rfl).mp hin
  | _ => exact ⟨h.interest, h.opened⟩

/-! ## The two `abort` calls -/

/-- An I/O call never gets an error from `Update`: it waits on open descriptors only. -/
theorem ioCall_no_abort {s : St} {call : IoCall} {sys : Sys} {t : Trap}
    (hsys : s.sysOk call.fd sys.first = true) : s.ioCall call sys ≠ .error t := by
  intro h
  rcases St.ioCall_eq s call sys with ⟨he, -, -⟩ | ⟨he, hne⟩
  · rw [he] at h
    cases h
  rw [he, St.blockingCall] at h
  split at h
  · cases h
  · rename_i hf
    have hopen := St.open_of_blocks (IoCall.blocks_iff.mpr ⟨hne, hf⟩) hsys
    rw [St.setTimeout_eq, IoKind.spec_events] at h
    split at h
    · rename_i t' ha
      exact (St.addEventAndYield_error ha).2 hopen
    · cases h
    · rename_i s₁ ha
      obtain ⟨-, rfl⟩ := St.addEventAndYield_rejected ha
      split at h
      · rename_i t' hfin
        exact (St.finishCall_error hfin).2 hopen
      · cases h

theorem St.leaveCall_kernel (s : St) : s.leaveCall.kernel = s.kernel := by
  unfold St.leaveCall
  split <;> rfl

theorem wakeCall_no_abort {s : St} {call : IoCall} {retry : SysRet} {t : Trap}
    (hopen : call.fd ∈ s.kernel.isOpen) : s.wakeCall call retry ≠ .error t := by
  intro h
  exact (St.finishCall_error h).2 (s.leaveCall_kernel ▸ hopen)

theorem settle_ne_trapped (s : St) (call : IoCall) (ret : Option Ret) (t : Trap) :
    s.settle call ret ≠ .trapped t := by
  unfold St.settle
  split
  · split <;> simp
  · simp

theorem coroutineResume_trapped {s : St} {id : Int} {t : Trap}
    (h : s.coroutineResume id = .trapped t) : t = .assertion := by
  unfold St.coroutineResume at h
  split at h
  · cases h
    rfl
  · split at h
    · cases h
    · split at h <;> cases h
      rfl

/-- As long as a coroutine that goes on in a call finds its descriptor open, the process stops for
other reasons only. -/
theorem step_trapped {s : St}
    (h : ∀ call reg, s.InCall s.running (.io call reg) → call.fd ∈ s.kernel.isOpen) {a : Act}
    {t : Trap} (ht : s.step a = .trapped t) : t = .conditionOverflow ∨ t = .assertion := by
  cases a with
  | io call sys =>
    simp only [St.step] at ht
    split at ht
    · rename_i hg
      simp only [Bool.and_eq_true] at hg
      split at ht
      · rename_i t' hio
        exact absurd hio (ioCall_no_abort hg.1.2)
      · exact absurd ht (settle_ne_trapped _ _ _ _)
    · cases ht
  | wake retry =>
    simp only [St.step] at ht
    split at ht
    · cases ht
    · cases ht
    · rename_i call reg hw
      obtain ⟨-, c, hc, hw⟩ := St.resumedIn_some hw
      split at ht
      · split at ht
        · rename_i t' hcall
          exact absurd hcall (wakeCall_no_abort (h _ _ ⟨c, hc, hw⟩))
        · exact absurd ht (settle_ne_trapped _ _ _ _)
      · cases ht
  | getCondition =>
    simp only [St.step, St.getCondition] at ht
    split at ht
    · split at ht <;> cases ht
      exact .inl rfl
    · cases ht
  | newCoroutine func id =>
    simp only [St.step] at ht
    split at ht
    · cases ht
    · split at ht
      · exact .inr (coroutineResume_trapped ht)
      · cases ht
  | sched env =>
    simp only [St.step] at ht
    split at ht
    · split at ht
      · cases ht
      · cases ht
      · exact .inr (coroutineResume_trapped ht)
    · cases ht
  | _ =>
    simp only [St.step] at ht
    split at ht <;> cases ht

theorem reach_epollSet {isOpen : Std.ExtTreeSet Int} {s : St}
    (h : Reach St.step (fun s a => s.sparesWaiters a = true) (St.init isOpen) s) : EpollSet s :=
  h.invariant (epollSet_init isOpen) fun _ _ _ hr hi hsp hs =>
    epollSet_move hi (reach_inv hr).slots hsp (St.step_move hs)

/-- **The epoll set of every run.** As long as no descriptor is closed while a coroutine waits on
it, the interest of each descriptor is the one its watcher calls for, and no step reaches the
`abort` of `AddEventAndYield` or of `DeleteEvent`. -/
theorem epoll_interest {isOpen : Std.ExtTreeSet Int} {s : St}
    (h : Reach St.step (fun s a => s.sparesWaiters a = true) (St.init isOpen) s) :
    (∀ fd, s.kernel.interest[fd]? = (s.watcher fd).interest) ∧
      ∀ a t, s.step a = .trapped t → t ≠ .addEvent ∧ t ≠ .deleteEvent := by
  have hset := reach_epollSet h
  refine ⟨hset.interest, fun a t ht => ?_⟩
  rcases step_trapped (hset.opened s.running) ht with rfl | rfl <;> simp

/-- Coroutine 0 waits for data on descriptor 5 and coroutine 1 to write to it; coroutine 2 closes
a descriptor nobody waits on. -/
def bothDirections : List Act :=
  [.newCoroutine 0 0, .io ⟨.read, 5, 0, 1⟩ ⟨⟨1700000000, 0⟩, .err .EAGAIN, .err .EAGAIN⟩,
    .newCoroutine 1 1, .io ⟨.write, 5, 0, 1⟩ ⟨⟨1700000000, 0⟩, .err .EAGAIN, .err .EAGAIN⟩,
    .newCoroutine 2 2, .closeFd 6]

theorem epoll_interest_both :
    (St.after [5, 6] bothDirections).kernel.interest[(5 : Int)]? = some (EPOLLIN ||| EPOLLOUT) ∧
    (∀ fd, (St.after [5, 6] bothDirections).kernel.interest[fd]? =
      ((St.after [5, 6] bothDirections).watcher fd).interest) ∧
    ∀ a t, (St.after [5, 6] bothDirections).step a = .trapped t →
      t ≠ .addEvent ∧ t ≠ .deleteEvent := by
  have hr : Reach St.step (fun s a => s.sparesWaiters a = true) (St.initWith [5, 6])
      (St.after [5, 6] bothDirections) :=
    (along_of_checkAlong (by decide)).reach (exec_after (by decide))
  exact ⟨by decide, (epoll_interest hr).1, (epoll_interest hr).2⟩

end Net
end CoSocket
