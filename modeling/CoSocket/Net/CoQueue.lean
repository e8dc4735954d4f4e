import CoSocket.Net.Conditions

/-!
# Net.CoQueue

`net/CoQueue.h` on top of the scheduler: any number of queues on one `CoSocket`, whose coroutines
call `Enque` and `Deque` among everything else they may do.

A coroutine inside `Deque` is suspended in the `ConditionWait` of its loop, and tests the queue
again when it is resumed; `inDeque` says which coroutine is in the `Deque` of which queue. Between a
test and what follows it there is no yield, so that each is one step. `enqueued` and `popped` are
the values that went in and came out so far; no code reads them.
-/

namespace CoSocket
namespace Net

open Base Lts

/-- A pending coroutine stays pending until it is resumed. -/
theorem pending_kept {s s' : St} {a : Act} {id : Int} (h : Inv s) (hm : Move s a s')
    (hid : id ∈ s.pending) : id ∈ s'.pending ∨ id = s'.running := by
  cases hm with
  | conditionNotify =>
    left
    rw [St.pending_conditionNotify h.conditions]
    exact List.mem_append_left _ hid
  | run hm =>
    obtain ⟨-, hpc⟩ := idle_of_inMain hm
    rw [(pending_eq (by simp [hpc])).2] at hid
    exact .inl hid
  | start hr hpc =>
    rw [(pending_eq (by simp [hpc])).2] at hid
    exact .inl hid
  | advance hr ha =>
    cases ha with
    | @waitResume it hpc hend =>
      -- the drain ends when nothing is pending
      rw [St.pending, St.passed, hpc,
        List.drop_eq_nil_of_le (List.getElem?_eq_none_iff.mp hend)] at hid
      cases hid
    | newCoFunc hpc | poll hpc | batchEnd hpc | batchSkip hpc | eventOut hpc | eventEnd hpc
    | timeoutEnd hpc =>
      rw [(pending_eq (by simp [hpc])).2] at hid
      exact .inl hid
  | resume hr ht =>
    cases ht with
    | notified hpc hidx =>
      rw [pending_of_waitResume hpc hidx, List.mem_cons] at hid
      rcases hid with rfl | hid
      · exact .inr rfl
      · exact .inl hid
    | read hpc | write hpc | timeout hpc =>
      rw [(pending_eq (by simp [hpc])).2] at hid
      exact .inl hid
  | resumeDead hr ht hc =>
    obtain ⟨w, c, hc', -⟩ := ht.inCall h.slots h.timers h.conditions
    rw [hc] at hc'
    cases hc'
  | _ => exact .inl hid

/-! ## The queues -/

structure CoQueue (T : Type) where
  condition : Nat
  queue : List T := []
  enqueued : List T := []
  popped : List T := []

/-- What came out, and what is left, is what went in. -/
def CoQueue.Fifo {T : Type} (Q : CoQueue T) : Prop := Q.popped ++ Q.queue = Q.enqueued

structure QSt (T : Type) where
  base : St
  queues : List (CoQueue T) := []
  inDeque : Std.ExtTreeMap Int Nat := ∅

inductive QAct (T : Type) where
  | newQueue
  | enque (q : Nat) (data : T)
  | deque (q : Nat)
  | act (a : Act)

variable {T : Type}

namespace QSt

/-- The loop of `Deque`, from its test on, in the running coroutine. -/
def dequeLoop (s : QSt T) (q : Nat) : Outcome (QSt T) Trap :=
  match s.queues[q]? with
  | none => .disabled
  | some Q =>
    match Q.queue with
    | [] =>
      (s.base.step (.conditionWait Q.condition)).andThen fun base =>
        .next { s with base, inDeque := s.inDeque.insert s.base.running q }
    | data :: rest =>
      .next { s with
        queues := s.queues.set q { Q with queue := rest, popped := Q.popped ++ [data] }
        inDeque := s.inDeque.erase s.base.running }

/-- The `Deque` that a step of the running coroutine goes on in: it has been resumed there. -/
def resumedDeque (s : QSt T) : Act → Option Nat
  | .wake _ => s.inDeque[s.base.running]?
  | _ => none

def step (s : QSt T) : QAct T → Outcome (QSt T) Trap
  | .newQueue =>
    (s.base.step .getCondition).andThen fun base =>
      .next { s with base, queues := s.queues ++ [{ condition := s.base.conditionCounter }] }
  | .enque q data =>
    match s.queues[q]? with
    | none => .disabled
    | some Q =>
      (s.base.step (.conditionNotify Q.condition)).andThen fun base =>
        .next { s with
          base
          queues := s.queues.set q
            { Q with queue := Q.queue ++ [data], enqueued := Q.enqueued ++ [data] } }
  | .deque q => if s.base.inUser then s.dequeLoop q else .disabled
  | .act a =>
    (s.base.step a).andThen fun base =>
      match s.resumedDeque a with
      | some q => { s with base }.dequeLoop q
      | none => .next { s with base }

def init (isOpen : Std.ExtTreeSet Int) : QSt T := { base := .init isOpen }

/-- The coroutine is suspended in the `Deque` of the queue. -/
def SuspendedInDeque (s : QSt T) (id : Int) (q : Nat) : Prop :=
  s.inDeque[id]? = some q ∧ ∃ w, s.base.Suspended id w

end QSt

/-! ## The invariant -/

/-- What holds of everybody in a `Deque` but the running coroutine: it waits for the condition of
its queue, and is pending when there is something in it. -/
structure Consumers (s : QSt T) (id : Int) : Prop where
  waits : ∀ q, s.inDeque[id]? = some q →
    ∃ Q, s.queues[q]? = some Q ∧ s.base.InCall id (.condition Q.condition)
  awake : ∀ q Q, s.inDeque[id]? = some q → s.queues[q]? = some Q → Q.queue ≠ [] →
    id ≠ s.base.running → id ∈ s.base.pending

structure QInv (s : QSt T) : Prop where
  base : Reachable s.base
  fifo : ∀ Q ∈ s.queues, Q.Fifo
  consumers : ∀ id, Consumers s id

theorem reachable_step {s s' : St} {a : Act} (h : Reachable s) (hs : s.step a = .next s') :
    Reachable s' := by
  obtain ⟨isOpen, hr⟩ := h
  exact ⟨isOpen, hr.tail trivial hs⟩

theorem consumers_kept {s : QSt T} {base : St} {a : Act} {id : Int} (hr : Reachable s.base)
    (hs : s.base.step a = .next base) (hne : id ≠ s.base.running) (h : Consumers s id) :
    Consumers { s with base } id := by
  have hm := St.step_move hs
  constructor
  · intro q hq
    obtain ⟨Q, hQ, hin⟩ := h.waits q hq
    exact ⟨Q, hQ, inCall_kept hm hne hin⟩
  · intro q Q hq hQ hitems hne'
    exact (pending_kept hr.inv hm (h.awake q Q hq hQ hitems hne)).resolve_right hne'

/-- A queue changes in its contents, and has something left only if it had something before. -/
theorem consumers_set {s : QSt T} {id : Int} {q : Nat} {Q : CoQueue T} (Q' : CoQueue T)
    (h : Consumers s id) (hQ : s.queues[q]? = some Q) (hc : Q'.condition = Q.condition)
    (hitems : Q'.queue ≠ [] → Q.queue ≠ []) :
    Consumers { s with queues := s.queues.set q Q' } id := by
  have hlt : q < s.queues.length := (List.getElem?_eq_some_iff.mp hQ).1
  have hset : ∀ q', (s.queues.set q Q')[q']? = if q = q' then some Q' else s.queues[q']? := by
    intro q'
    by_cases he : q = q'
    · subst he
      simp [hlt]
    · simp [he]
  constructor
  · intro q' hq'
    obtain ⟨Q₀, hQ₀, hin⟩ := h.waits q' hq'
    by_cases he : q = q'
    · subst he
      rw [hQ] at hQ₀
      cases hQ₀
      exact ⟨Q', by rw [hset, if_pos rfl], hc ▸ hin⟩
    · exact ⟨Q₀, by rw [hset, if_neg he]; exact hQ₀, hin⟩
  · intro q' Q₀ hq' hQ₀ hne
    rw [hset] at hQ₀
    split at hQ₀
    · rename_i he
      subst he
      cases hQ₀
      exact h.awake q Q hq' hQ (hitems hne)
    · exact h.awake q' Q₀ hq' hQ₀ hne

theorem fifo_set {queues : List (CoQueue T)} {q : Nat} {Q' : CoQueue T}
    (h : ∀ Q ∈ queues, Q.Fifo) (hQ' : Q'.Fifo) : ∀ Q ∈ queues.set q Q', Q.Fifo := by
  intro Q hQ
  rcases List.mem_or_eq_of_mem_set hQ with hmem | rfl
  · exact h Q hmem
  · exact hQ'

theorem consumers_inDeque {s : QSt T} {id : Int} {inDeque : Std.ExtTreeMap Int Nat}
    (h : Consumers s id) (hid : inDeque[id]? = s.inDeque[id]?) :
    Consumers { s with inDeque } id := by
  constructor
  · intro q hq
    exact h.waits q (hid ▸ hq)
  · intro q Q hq
    exact h.awake q Q (hid ▸ hq)

section Deque

variable {s : QSt T} {q : Nat} {Q : CoQueue T}

theorem deque_waits_inv {base : St} (hr : Reachable s.base) (hfifo : ∀ Q ∈ s.queues, Q.Fifo)
    (hcons : ∀ id, id ≠ s.base.running → Consumers s id) (hQ : s.queues[q]? = some Q)
    (hempty : Q.queue = []) (hs : s.base.step (.conditionWait Q.condition) = .next base) :
    QInv { s with base, inDeque := s.inDeque.insert s.base.running q } := by
  refine ⟨reachable_step hr hs, hfifo, fun id => ?_⟩
  by_cases hid : id = s.base.running
  · subst hid
    constructor
    · intro q' hq'
      simp only [Std.ExtTreeMap.getElem?_insert_self, Option.some.injEq] at hq'
      subst hq'
      refine ⟨Q, hQ, ?_⟩
      cases St.step_move hs with
      | conditionWait hu' hc => exact (inCall_insert_iff rfl).mpr (.inl ⟨rfl, rfl⟩)
    · intro q' Q' hq' hQ' hne
      simp only [Std.ExtTreeMap.getElem?_insert_self, Option.some.injEq] at hq'
      subst hq'
      rw [hQ] at hQ'
      cases hQ'
      exact absurd hempty hne
  · apply consumers_inDeque (consumers_kept hr hs hid (hcons id hid))
    rw [Std.ExtTreeMap.getElem?_insert, if_neg]
    simpa using fun he => hid he.symm

theorem deque_takes_inv {data : T} {rest : List T} (hr : Reachable s.base)
    (hfifo : ∀ Q ∈ s.queues, Q.Fifo)
    (hcons : ∀ id, id ≠ s.base.running → Consumers s id) (hQ : s.queues[q]? = some Q)
    (hitems : Q.queue = data :: rest) :
    QInv { s with
      queues := s.queues.set q { Q with queue := rest, popped := Q.popped ++ [data] }
      inDeque := s.inDeque.erase s.base.running } := by
  refine ⟨hr, fifo_set hfifo ?_, fun id => ?_⟩
  · have hQ' := hfifo Q (List.mem_of_getElem? hQ)
    unfold CoQueue.Fifo at hQ' ⊢
    rw [hitems] at hQ'
    simpa using hQ'
  · by_cases hid : id = s.base.running
    · subst hid
      constructor
      · intro q' hq'
        simp at hq'
      · intro q' Q' hq'
        simp at hq'
    · have hset := consumers_set { Q with queue := rest, popped := Q.popped ++ [data] }
        (hcons id hid) hQ rfl (fun _ => by simp [hitems])
      apply consumers_inDeque hset
      rw [Std.ExtTreeMap.getElem?_erase, if_neg]
      simpa using fun he => hid he.symm

/-- `Deque`, from its test on, in the running coroutine's own code. -/
theorem dequeLoop_inv {s' : QSt T} (hr : Reachable s.base) (hfifo : ∀ Q ∈ s.queues, Q.Fifo)
    (hcons : ∀ id, id ≠ s.base.running → Consumers s id) (h : s.dequeLoop q = .next s') :
    QInv s' := by
  unfold QSt.dequeLoop at h
  split at h
  · cases h
  rename_i Q hQ
  split at h
  · rename_i hempty
    obtain ⟨base, hs, hnext⟩ := Outcome.andThen_eq_next.mp h
    cases hnext
    exact deque_waits_inv hr hfifo hcons hQ hempty hs
  · rename_i data rest hitems
    cases h
    exact deque_takes_inv hr hfifo hcons hQ hitems

end Deque

theorem qinv_init (isOpen : Std.ExtTreeSet Int) : QInv (QSt.init isOpen : QSt T) where
  base := ⟨isOpen, .refl⟩
  fifo Q hQ := by cases hQ
  consumers id := by
    constructor
    · intro q hq
      simp [QSt.init] at hq
    · intro q Q hq
      simp [QSt.init] at hq

/-- `Enque`: the value is behind the others, and everybody who waits for one is pending. -/
theorem enque_inv {s : QSt T} {base : St} {q : Nat} {Q : CoQueue T} {data : T} (h : QInv s)
    (hQ : s.queues[q]? = some Q) (hs : s.base.step (.conditionNotify Q.condition) = .next base) :
    QInv { s with
      base
      queues := s.queues.set q
        { Q with queue := Q.queue ++ [data], enqueued := Q.enqueued ++ [data] } } := by
  have hinv := h.base.inv
  have hlt : q < s.queues.length := (List.getElem?_eq_some_iff.mp hQ).1
  have hbase : base = s.base.conditionNotify Q.condition := by
    cases St.step_move hs
    rfl
  refine ⟨reachable_step h.base hs, fifo_set h.fifo ?_, fun id => ?_⟩
  · have hQ' := h.fifo Q (List.mem_of_getElem? hQ)
    unfold CoQueue.Fifo at hQ' ⊢
    rw [← List.append_assoc, hQ']
  · obtain ⟨hwaits, hawake⟩ := h.consumers id
    subst hbase
    constructor
    · intro q' hq'
      obtain ⟨Q₀, hQ₀, hin⟩ := hwaits q' hq'
      by_cases he : q = q'
      · subst he
        rw [hQ] at hQ₀
        cases hQ₀
        exact ⟨{ Q with queue := Q.queue ++ [data], enqueued := Q.enqueued ++ [data] },
          by simp [hlt], hin⟩
      · exact ⟨Q₀, by simpa [he] using hQ₀, hin⟩
    · intro q' Q' hq' hQ' hne hrun
      rw [St.pending_conditionNotify hinv.conditions, List.mem_append, Std.ExtTreeSet.mem_toList]
      by_cases he : q = q'
      · -- whoever waits for this queue was filed under its condition, or is pending already
        subst he
        obtain ⟨Q₀, hQ₀, hin⟩ := hwaits q hq'
        rw [hQ] at hQ₀
        cases hQ₀
        exact (hinv.conditions.parked id _ hin hrun).symm
      · exact .inl (hawake q' Q' hq' (by simpa [he] using hQ') hne hrun)

theorem newQueue_inv {s : QSt T} {base : St} (h : QInv s)
    (hs : s.base.step .getCondition = .next base) :
    QInv { s with base, queues := s.queues ++ [{ condition := s.base.conditionCounter }] } := by
  have hbase : base = { s.base with conditionCounter := s.base.conditionCounter + 1 } := by
    cases St.step_move hs
    rfl
  refine ⟨reachable_step h.base hs, fun Q hQ => ?_, fun id => ?_⟩
  · rcases List.mem_append.mp hQ with hQ | hQ
    · exact h.fifo Q hQ
    · rw [List.mem_singleton.mp hQ]
      rfl
  · obtain ⟨hwaits, hawake⟩ := h.consumers id
    subst hbase
    constructor
    · intro q hq
      obtain ⟨Q, hQ, hin⟩ := hwaits q hq
      have hlt := (List.getElem?_eq_some_iff.mp hQ).1
      exact ⟨Q, by rw [List.getElem?_append_left hlt]; exact hQ, hin⟩
    · intro q Q hq hQ hne hrun
      obtain ⟨Q₀, hQ₀, -⟩ := hwaits q hq
      rw [List.getElem?_append_left (List.getElem?_eq_some_iff.mp hQ₀).1] at hQ
      exact hawake q Q hq hQ hne hrun

/-- Any other step: a coroutine resumed in a `Deque` goes on in it, and nobody else leaves one. -/
theorem act_inv {s s' : QSt T} {base : St} {a : Act} (h : QInv s)
    (hs : s.base.step a = .next base)
    (hnext : (match s.resumedDeque a with
      | some q => { s with base }.dequeLoop q
      | none => .next { s with base }) = .next s') : QInv s' := by
  have hm := St.step_move hs
  have hr := reachable_step h.base hs
  split at hnext
  · rename_i q hq
    unfold QSt.resumedDeque at hq
    split at hq
    · -- back in the loop of `Deque`
      obtain ⟨Q, hQ, hin⟩ := (h.consumers s.base.running).waits q hq
      have hrun : base.running = s.base.running := by cases hm <;> rfl
      have hcons : ∀ id, id ≠ base.running → Consumers { s with base } id := by
        intro id hid
        exact consumers_kept h.base hs (hrun ▸ hid) (h.consumers id)
      exact dequeLoop_inv (s := { s with base }) hr h.fifo hcons hnext
    · cases hq
  · rename_i hnone
    cases hnext
    refine ⟨hr, h.fifo, fun id => ?_⟩
    by_cases hid : id = s.base.running
    · -- the running coroutine is in no `Deque`: it would have been resumed there
      have hout : s.inDeque[id]? = none := by
        cases hq : s.inDeque[id]? with
        | none => rfl
        | some q =>
          obtain ⟨Q, -, hin⟩ := (h.consumers id).waits q hq
          obtain ⟨retry, rfl⟩ := wake_of_inCall h.base.inv.table (hid ▸ hin) hm
          rw [QSt.resumedDeque, ← hid, hq] at hnone
          cases hnone
      constructor
      · intro q hq
        rw [hout] at hq
        cases hq
      · intro q Q hq
        rw [hout] at hq
        cases hq
    · exact consumers_kept h.base hs hid (h.consumers id)

theorem qinv_step {s s' : QSt T} {a : QAct T} (h : QInv s) (hs : s.step a = .next s') :
    QInv s' := by
  cases a with
  | newQueue =>
    obtain ⟨base, hb, hnext⟩ := Outcome.andThen_eq_next.mp hs
    cases hnext
    exact newQueue_inv h hb
  | enque q data =>
    simp only [QSt.step] at hs
    split at hs
    · cases hs
    · rename_i Q hQ
      obtain ⟨base, hb, hnext⟩ := Outcome.andThen_eq_next.mp hs
      cases hnext
      exact enque_inv h hQ hb
  | deque q =>
    simp only [QSt.step] at hs
    split at hs
    · exact dequeLoop_inv h.base h.fifo (fun id _ => h.consumers id) hs
    · cases hs
  | act a =>
    obtain ⟨base, hb, hnext⟩ := Outcome.andThen_eq_next.mp hs
    exact act_inv h hb hnext

theorem reach_qinv {isOpen : Std.ExtTreeSet Int} {s : QSt T}
    (h : Reach QSt.step Any (QSt.init isOpen) s) : QInv s :=
  h.invariant (qinv_init isOpen) fun _ _ _ _ hi _ hs => qinv_step hi hs

/-- **Queues.** In every reachable state, the values popped from a queue followed by its contents
are the values put into it, in order; and when the queue is not empty, every coroutine suspended in
its `Deque` is pending in `m_waitResumeList` and in no wait set. -/
theorem queue_sound {isOpen : Std.ExtTreeSet Int} {s : QSt T}
    (h : Reach QSt.step Any (QSt.init isOpen) s) {q : Nat} {Q : CoQueue T}
    (hQ : s.queues[q]? = some Q) :
    Q.popped ++ Q.queue = Q.enqueued ∧
      (Q.queue ≠ [] → ∀ id, s.SuspendedInDeque id q →
        id ∈ s.base.pending ∧ ∀ key, id ∉ s.base.waiters key) := by
  have hinv := reach_qinv h
  refine ⟨hinv.fifo Q (List.mem_of_getElem? hQ), ?_⟩
  rintro hne id ⟨hin, w, hsus⟩
  have hrun := (hinv.base.inv.table.suspended_iff.mp hsus).2
  have hpend := (hinv.consumers id).awake q Q hin hQ hne hrun
  exact ⟨hpend, (hinv.base.inv.conditions.notified id hpend).2.2⟩

/-- Coroutine 0 waits in the `Deque` of an empty queue, and coroutine 1 puts a value into it. -/
def producerConsumer : QSt Nat :=
  (exec QSt.step (QSt.init ∅)
    [.newQueue, .act (.newCoroutine 0 0), .deque 0, .act (.newCoroutine 1 1), .enque 0 7]).stateD
    (QSt.init ∅)

theorem queue_sound_producerConsumer :
    producerConsumer.queues[0]?.map (·.queue) = some [7] ∧
    producerConsumer.SuspendedInDeque 0 0 ∧ 0 ∈ producerConsumer.base.pending ∧
    ∀ key, 0 ∉ producerConsumer.base.waiters key := by
  have hr : Reach QSt.step Any (QSt.init ∅) producerConsumer :=
    reach_of_exec (Outcome.eq_next_of_isNext (by decide) _)
  have hQ : producerConsumer.queues[0]? = some ⟨0, [7], [7], []⟩ := rfl
  have hin : producerConsumer.SuspendedInDeque 0 0 :=
    ⟨by decide, .condition 0, ⟨0, .COROUTINE_SUSPEND, some (.condition 0)⟩, by decide, rfl, rfl⟩
  have hsound := (queue_sound hr hQ).2 (by simp) 0 hin
  exact ⟨by rw [hQ]; rfl, hin, hsound.1, hsound.2⟩

end Net
end CoSocket
