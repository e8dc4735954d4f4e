import CoSocket.Net.Registries

/-!
# Net.Conditions

`ConditionNotify` against the waits it is meant for. Condition numbers have 64 bits, and the wait
sets are kept in a map whose keys are `int`, so that two conditions share a set when their numbers
agree in the low 32 bits (`conditionKey_eq_iff`).

`notify_independent_iff` is about one notification in any reachable state: it moves the waiters of
its own condition and no others, if and only if nobody waits for a condition it shares the set with.
-/

namespace CoSocket
namespace Net

open Base Lts

theorem conditionKey_eq_iff (c d : Nat) :
    conditionKey c = conditionKey d ↔ c % 2 ^ 32 = d % 2 ^ 32 := by
  unfold conditionKey
  constructor
  · intro h
    split at h <;> split at h <;> omega
  · intro h
    rw [h]

namespace St

/-- The coroutine is suspended in `ConditionWait(c)`, and has not been notified since. -/
def Awaits (s : St) (id : Int) (c : Nat) : Prop := s.Suspended id (.condition c) ∧ id ∉ s.pending

theorem awaits_iff {s : St} (h : Inv s) {id : Int} {c : Nat} :
    s.Awaits id c ↔ s.InCall id (.condition c) ∧ id ∈ s.waiters (conditionKey c) := by
  constructor
  · rintro ⟨hsus, hnot⟩
    obtain ⟨hin, hne⟩ := h.table.suspended_iff.mp hsus
    exact ⟨hin, (h.conditions.parked id c hin hne).resolve_right hnot⟩
  · rintro ⟨hin, hmem⟩
    obtain ⟨hne, -⟩ := h.conditions.filed _ id hmem
    refine ⟨h.table.suspended_iff.mpr ⟨hin, hne⟩, fun hpend => ?_⟩
    exact (h.conditions.notified id hpend).2.2 _ hmem

/-- A notification of `c` moves the waiters of `c` to `m_waitResumeList`, each once, and leaves
those of every other condition where they are. -/
def NotifiesOnly (s : St) (c : Nat) : Prop :=
  ∃ moved, (s.conditionNotify c).waitResumeList = s.waitResumeList ++ moved ∧ moved.Nodup ∧
    (∀ id, id ∈ moved ↔ s.Awaits id c) ∧
    ∀ d, d ≠ c → ∀ id, s.Awaits id d → (s.conditionNotify c).Awaits id d

theorem mem_waiters_iff {s : St} (h : Inv s) {id : Int} {c : Nat} :
    id ∈ s.waiters (conditionKey c) ↔ ∃ d, d % 2 ^ 32 = c % 2 ^ 32 ∧ s.Awaits id d := by
  constructor
  · intro hmem
    obtain ⟨-, d, hin, hkey⟩ := h.conditions.filed _ id hmem
    exact ⟨d, (conditionKey_eq_iff d c).mp hkey, (awaits_iff h).mpr ⟨hin, hkey ▸ hmem⟩⟩
  · rintro ⟨d, hmod, hwait⟩
    rw [← (conditionKey_eq_iff d c).mpr hmod]
    exact ((awaits_iff h).mp hwait).2

end St

theorem inv_notify {s : St} (h : Inv s) (c : Nat) : Inv (s.conditionNotify c) :=
  ⟨⟨h.table.live, h.table.running⟩, h.slots, ⟨h.timers.wf, h.timers.entry, h.timers.timed⟩,
    conditions_notify h.conditions c⟩

/-- **Notification.** In every reachable state, `ConditionNotify(c)` moves the waiters of `c` and
leaves those of all other conditions, if and only if nobody waits for another condition with the
same low 32 bits. -/
theorem notify_independent_iff {s : St} (h : Reachable s) (c : Nat) :
    s.NotifiesOnly c ↔ ∀ id d, s.Awaits id d → d % 2 ^ 32 = c % 2 ^ 32 → d = c := by
  have hinv := h.inv
  have hmoved : (s.conditionNotify c).waitResumeList =
      s.waitResumeList ++ (s.waiters (conditionKey c)).toList := rfl
  constructor
  · rintro ⟨moved, hlist, -, hmem, -⟩ id d hwait hmod
    rw [hmoved, List.append_cancel_left_eq] at hlist
    have hin : id ∈ moved := by
      rw [← hlist, Std.ExtTreeSet.mem_toList]
      exact (St.mem_waiters_iff hinv).mpr ⟨d, hmod, hwait⟩
    have heq := hwait.1.inCall.unique ((hmem id).mp hin).1.inCall
    cases heq
    rfl
  · intro hown
    refine ⟨_, hmoved, s.nodup_waiters _, fun id => ?_, fun d hd id hwait => ?_⟩
    · rw [Std.ExtTreeSet.mem_toList, St.mem_waiters_iff hinv]
      constructor
      · rintro ⟨d, hmod, hwait⟩
        rw [← hown id d hwait hmod]
        exact hwait
      · intro hwait
        exact ⟨c, rfl, hwait⟩
    · -- the waiters of another condition are under another key
      have hkey : conditionKey c ≠ conditionKey d := fun heq =>
        hd (hown id d hwait ((conditionKey_eq_iff c d).mp heq).symm)
      obtain ⟨hin, hmem⟩ := (St.awaits_iff hinv).mp hwait
      refine (St.awaits_iff (inv_notify hinv c)).mpr ⟨hin, ?_⟩
      rw [waiters_insert rfl, if_neg hkey]
      exact hmem

/-- A coroutine waits for condition 0 and another one runs. -/
def oneWaiter : List Act := [.newCoroutine 0 0, .conditionWait 0, .newCoroutine 1 1]

theorem oneWaiter_inCall {id : Int} {w : Wait} (h : (St.after [] oneWaiter).InCall id w) :
    id = 0 ∧ w = .condition 0 := by
  have hlist : (St.after [] oneWaiter).co.toList =
      [(0, ⟨0, .COROUTINE_SUSPEND, some (.condition 0)⟩), (1, ⟨1, .COROUTINE_RUNNING, none⟩)] := by
    decide
  obtain ⟨c, hc, hw⟩ := h
  rw [← Std.ExtTreeMap.mem_toList_iff_getElem?_eq_some, hlist] at hc
  simp only [List.mem_cons, Prod.mk.injEq, List.not_mem_nil, or_false] at hc
  rcases hc with ⟨rfl, rfl⟩ | ⟨rfl, rfl⟩
  · exact ⟨rfl, (Option.some.inj hw).symm⟩
  · cases hw

theorem notify_independent_own : (St.after [] oneWaiter).NotifiesOnly 0 := by
  refine (notify_independent_iff (reachable_after (by decide)) 0).mpr fun id d hwait _ => ?_
  obtain ⟨-, hd⟩ := oneWaiter_inCall hwait.1.inCall
  cases hd
  rfl

/-- The notification of condition `2 ^ 32` wakes the coroutine that waits for condition 0. -/
theorem notify_wakes_other :
    Reachable (St.after [] oneWaiter) ∧ (St.after [] oneWaiter).Awaits 0 0 ∧
    ((St.after [] oneWaiter).conditionNotify 4294967296).waitResumeList = [0] ∧
    ¬ (St.after [] oneWaiter).NotifiesOnly 4294967296 := by
  have hr : Reachable (St.after [] oneWaiter) := reachable_after (by decide)
  have hwait : (St.after [] oneWaiter).Awaits 0 0 :=
    ⟨⟨⟨0, .COROUTINE_SUSPEND, some (.condition 0)⟩, by decide, rfl, rfl⟩, by decide⟩
  refine ⟨hr, hwait, by decide, ?_⟩
  rintro ⟨moved, hlist, -, hmem, -⟩
  have hin : (0 : Int) ∈ moved := by
    have hmoved : [(0 : Int)] = [] ++ moved := hlist
    rw [← hmoved.trans (List.nil_append moved)]
    exact List.mem_singleton_self 0
  obtain ⟨-, hd⟩ := oneWaiter_inCall ((hmem 0).mp hin).1.inCall
  cases hd

end Net
end CoSocket
