import CoSocket.Net.Registries

/-!
# Net.Rejected

A wait that `SaveToCoIdMap` rejects, because another coroutine waits on the descriptor in the same
direction. `AddEventAndYield` reports the rejection, and none of its four callers looks at the
report: each goes on to its second attempt and to `DeleteEvent`, which takes down whatever
registration it finds. `rejected_unregisters` says what is left of the other coroutine's wait.
-/

namespace CoSocket
namespace Net

open Base Lts

namespace St

/-- The call has to wait, and `SaveToCoIdMap` rejects the wait. -/
def rejects (s : St) (call : IoCall) (sys : Sys) : Bool :=
  call.blocks sys && !(s.saveToCoIdMap call.fd call.kind.spec.events).1

/-- The epoll interest for `fd` in a direction. -/
def interested (s : St) (fd : Int) (d : Dir) : Bool :=
  hasEvent (s.kernel.interest.getD fd 0) d.mask

theorem rejects_iff {s : St} {call : IoCall} {sys : Sys} :
    s.rejects call sys = true ↔ call.blocks sys = true ∧ s.slot call.fd call.kind.dir ≠ -1 := by
  unfold rejects
  rw [IoKind.spec_events, saveToCoIdMap_mask, Bool.and_eq_true]
  split
  · rename_i h
    simp [h]
  · rename_i h
    simp [h]

theorem interested_eq_of_getElem? {s : St} {fd : Int} {events : UInt32} {d : Dir}
    (h : s.kernel.interest[fd]? = if events = 0 then none else some events) :
    s.interested fd d = hasEvent events d.mask := by
  unfold interested
  rw [Std.ExtTreeMap.getD_eq_getD_getElem?, h]
  split
  · rename_i he
    rw [he]
    rfl
  · rfl

theorem hasEvent_getEvents (s : St) (fd : Int) (d : Dir) :
    hasEvent (s.getEvents fd) d.mask = !decide (s.slot fd d = -1) := by
  unfold hasEvent
  rw [getEvents, FdWatcher.events_and_mask]
  show _ = !decide ((s.watcher fd).slot d = -1)
  by_cases h : (s.watcher fd).slot d = -1
  · simp [h]
  · cases d <;> simp [h, Dir.mask] <;> decide

end St

/-- What `A`, waiting on `fd` in direction `d`, has registered is the same in both states: its slot
in `m_coIdMap`, the epoll interest of that direction, and its timeout entry. -/
structure Undisturbed (A fd : Int) (d : Dir) (s s' : St) : Prop where
  slot : s'.slot fd d = s.slot fd d
  interest : s'.interested fd d = s.interested fd d
  timeout : ∀ e : CoIdTimeout, e.coId = A →
    (e ∈ s'.timeoutSet.timeoutSet ↔ e ∈ s.timeoutSet.timeoutSet)

/-- The step of a rejected call: the slot of its direction is emptied and the kernel gets the events
of the other one; the timeout entry the call made is gone again. -/
theorem rejected_step {s s' : St} {call : IoCall} {sys : Sys} (h : Inv s)
    (hrej : s.rejects call sys = true) (hstep : s.step (.io call sys) = .next s') :
    s.inUser = true ∧
    ∃ kernel, kernel.interest[call.fd]? =
        (if (s.setSlot call.fd call.kind.dir (-1)).getEvents call.fd = 0 then none
          else some ((s.setSlot call.fd call.kind.dir (-1)).getEvents call.fd)) ∧
      s' = { s with coIdMap := (s.setSlot call.fd call.kind.dir (-1)).coIdMap, kernel } := by
  obtain ⟨hb, hslot⟩ := St.rejects_iff.mp hrej
  cases St.step_move hstep with
  | ioReturn _ _ hb' =>
    rw [hb] at hb'
    cases hb'
  | ioWait _ _ _ hslot' => exact absurd hslot' hslot
  | ioReject hu hopen _ hupd hk =>
    rw [TimeoutSet.unguarded_guarded h.timers.wf (h.timers.fresh (not_inCall_of_inUser hu))]
    refine ⟨hu, _, ?_, rfl⟩
    obtain ⟨k', hk', -, hint⟩ := Kernel.update_eq_ok hopen
      ((s.setSlot call.fd call.kind.dir (-1)).getEvents call.fd)
    rw [hupd] at hk'
    cases hk'
    rw [hk.interest, hint, if_pos rfl]

/-- **A rejected wait unregisters the waiter.** Whenever a call is rejected because `A` waits on
the same descriptor and direction, `A` is afterwards still suspended and its timeout entry is still
there, but its slot is empty and the kernel is not asked for the event, so that no event wakes it
any more; `Undisturbed` fails for every rejected call. -/
theorem rejected_unregisters {s s' : St} {call : IoCall} {sys : Sys} {A : Int} (h : Reachable s)
    (hslot : s.slot call.fd call.kind.dir = A) (hA : A ≠ -1)
    (hrej : s.rejects call sys = true) (hstep : s.step (.io call sys) = .next s') :
    (∃ w, s'.Suspended A w) ∧
    (∀ e : CoIdTimeout, e ∈ s'.timeoutSet.timeoutSet ↔ e ∈ s.timeoutSet.timeoutSet) ∧
    s'.slot call.fd call.kind.dir = -1 ∧ s'.interested call.fd call.kind.dir = false ∧
    (∀ events, s'.eventTarget call.fd events call.kind.dir = none) ∧
    ¬ Undisturbed A call.fd call.kind.dir s s' := by
  subst hslot
  obtain ⟨hu, kernel, hint, rfl⟩ := rejected_step h.inv hrej hstep
  have hempty : (s.setSlot call.fd call.kind.dir (-1)).slot call.fd call.kind.dir = -1 := by
    rw [St.slot_setSlot, if_pos ⟨rfl, rfl⟩]
  refine ⟨?_, fun e => Iff.rfl, hempty, ?_, fun events => ?_, fun hun => ?_⟩
  · obtain ⟨waiting, reg, hin, -⟩ := h.inv.slots _ _ hA
    refine ⟨_, h.inv.table.suspended_iff.mpr ⟨hin, fun he => ?_⟩⟩
    exact not_inCall_of_inUser hu _ (he ▸ hin)
  · rw [St.interested_eq_of_getElem? hint, St.hasEvent_getEvents, hempty]
    rfl
  · unfold St.eventTarget
    rw [if_neg]
    rintro hg
    simp only [Bool.and_eq_true, decide_eq_true_eq] at hg
    exact hg.2 hempty
  · exact hA (hun.slot.symm.trans hempty)

/-- Coroutine 0 waits for data on descriptor 5 with a timeout, and then coroutine 1 runs. -/
def twoReaders : List Act :=
  [.newCoroutine 0 0, .io ⟨.read, 5, 1000, 1⟩ ⟨⟨1700000000, 0⟩, .err .EAGAIN, .err .EAGAIN⟩,
    .newCoroutine 1 1]

/-- Its `Read` of the same descriptor. -/
def secondRead : IoCall := ⟨.read, 5, 0, 1⟩

def noData : Sys := ⟨⟨1700000000, 500⟩, .err .EAGAIN, .err .EAGAIN⟩

theorem rejected_unregisters_reader :
    Reachable (St.after [5] twoReaders) ∧ (St.after [5] twoReaders).slot 5 .read = 0 ∧
    (St.after [5] twoReaders).rejects secondRead noData = true ∧
    (St.after [5] (twoReaders ++ [.io secondRead noData])).slot 5 .read = -1 ∧
    (St.after [5] (twoReaders ++ [.io secondRead noData])).interested 5 .read = false := by
  have hr : Reachable (St.after [5] twoReaders) := reachable_after (by decide)
  have hslot : (St.after [5] twoReaders).slot 5 .read = 0 := by decide
  have hrej : (St.after [5] twoReaders).rejects secondRead noData = true := by decide
  have hstep : (St.after [5] twoReaders).step (.io secondRead noData) =
      .next (St.after [5] (twoReaders ++ [.io secondRead noData])) :=
    step_after (by decide) (by decide)
  obtain ⟨-, -, hs, hi, -⟩ := rejected_unregisters hr hslot (by decide) hrej hstep
  exact ⟨hr, hslot, hrej, hs, hi⟩

theorem rejected_disturbs_reader :
    Reachable (St.after [5] twoReaders) ∧ (St.after [5] twoReaders).slot 5 .read = 0 ∧
    (St.after [5] twoReaders).rejects secondRead noData = true ∧
    (St.after [5] twoReaders).step (.io secondRead noData) =
      .next (St.after [5] (twoReaders ++ [.io secondRead noData])) ∧
    ¬ Undisturbed 0 5 .read (St.after [5] twoReaders)
      (St.after [5] (twoReaders ++ [.io secondRead noData])) := by
  refine ⟨reachable_after (by decide), by decide, by decide, step_after (by decide) (by decide),
    fun hun => ?_⟩
  have hslot := hun.slot
  revert hslot
  decide

end Net
end CoSocket
