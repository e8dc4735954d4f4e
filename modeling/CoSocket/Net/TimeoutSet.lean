import CoSocket.Base.Timestamp

/-!
# Net.TimeoutSet

`CoSocket::TimeoutSet` of `net/CoSocket.cpp`: the pending timeouts, as a `std::set` ordered by
deadline and then coroutine id, and a `std::map` from the coroutine id to its set entry.

The set operations are those of `Std.ExtTreeSet` under the code's own `operator <`; the iterators
kept in `m_timeoutPtrMap` are the entries they point to. `Wf` is what the two containers owe each
other, and each operation keeps it as long as an id is inserted only while it has no entry.
-/

namespace CoSocket
namespace Net

open Base

structure CoIdTimeout where
  coId : Int := 0
  timestamp : Timestamp
deriving DecidableEq, Repr

namespace CoIdTimeout

/-- `operator <` of `CoIdTimeout`. -/
def less (lhs rhs : CoIdTimeout) : Bool :=
  if lhs.timestamp.less rhs.timestamp then true
  else if lhs.timestamp.equal rhs.timestamp then lhs.coId < rhs.coId
  else false

/-- The order a `std::set` derives from `operator <`. -/
def cmp (a b : CoIdTimeout) : Ordering :=
  if a.less b then .lt else if b.less a then .gt else .eq

theorem less_iff (a b : CoIdTimeout) :
    a.less b = true ↔ a.timestamp.tvSec < b.timestamp.tvSec ∨
      a.timestamp.tvSec = b.timestamp.tvSec ∧ (a.timestamp.tvUsec < b.timestamp.tvUsec ∨
        a.timestamp.tvUsec = b.timestamp.tvUsec ∧ a.coId < b.coId) := by
  obtain ⟨ca, sa, ua⟩ := a
  obtain ⟨cb, sb, ub⟩ := b
  unfold less
  split
  · rename_i h
    rw [Timestamp.less_iff] at h
    simp only at h
    simp only [true_iff]
    omega
  · rename_i h
    rw [Timestamp.less_iff] at h
    simp only at h
    split
    · rename_i he
      rw [Timestamp.equal_iff, Timestamp.mk.injEq] at he
      simp only [decide_eq_true_eq]
      omega
    · rename_i he
      rw [Timestamp.equal_iff, Timestamp.mk.injEq] at he
      simp only [Bool.false_eq_true, false_iff]
      omega

theorem cmp_isLE_iff (a b : CoIdTimeout) : (cmp a b).isLE = true ↔ ¬ b.less a = true := by
  have hab := less_iff a b
  have hba := less_iff b a
  unfold cmp
  split
  · rename_i h
    have := hab.mp h
    simp only [Ordering.isLE_lt, true_iff]
    rw [hba]
    omega
  · split
    · rename_i h; simp [h]
    · rename_i h; simp [h]

instance : Std.TransCmp cmp where
  eq_swap {a b} := by
    have hab := less_iff a b
    have hba := less_iff b a
    unfold cmp
    by_cases h₁ : a.less b = true
    · have h₂ : ¬ b.less a = true := by rw [hba]; have := hab.mp h₁; omega
      simp [h₁, h₂]
    · by_cases h₂ : b.less a = true
      · simp [h₁, h₂]
      · simp [h₁, h₂]
  isLE_trans {a b c} := by
    intro h₁ h₂
    rw [cmp_isLE_iff, less_iff] at *
    omega

instance : Std.LawfulEqCmp cmp where
  eq_of_compare {a b} := by
    intro h
    have h₁ : ¬ b.less a = true := (cmp_isLE_iff a b).mp (by rw [h]; rfl)
    have h₂ : ¬ a.less b = true := by
      intro hl
      unfold cmp at h
      simp [hl] at h
    rw [less_iff] at h₁ h₂
    obtain ⟨ca, sa, ua⟩ := a
    obtain ⟨cb, sb, ub⟩ := b
    simp only [mk.injEq, Timestamp.mk.injEq]
    simp only at h₁ h₂
    omega

end CoIdTimeout

@[ext] structure TimeoutSet where
  timeoutSet : Std.ExtTreeSet CoIdTimeout CoIdTimeout.cmp := ∅
  timeoutPtrMap : Std.ExtTreeMap Int CoIdTimeout := ∅

namespace TimeoutSet

/-- `Insert`; `now` is the clock reading of the `Timestamp` it constructs. -/
def insert (t : TimeoutSet) (coId timeoutMs : Int) (now : Timestamp) : TimeoutSet :=
  let timeout : CoIdTimeout := { coId, timestamp := now.addMillisecond timeoutMs }
  if t.timeoutSet.contains timeout then t
  else
    { timeoutSet := t.timeoutSet.insert timeout
      timeoutPtrMap := t.timeoutPtrMap.insertIfNew coId timeout }

/-- `Delete` -/
def delete (t : TimeoutSet) (coId : Int) : TimeoutSet :=
  match t.timeoutPtrMap[coId]? with
  | some e => { timeoutSet := t.timeoutSet.erase e, timeoutPtrMap := t.timeoutPtrMap.erase coId }
  | none => t

/-- `m_timeoutSet.begin()` -/
def first (t : TimeoutSet) : Option CoIdTimeout := t.timeoutSet.toList.head?

/-- `GetExpired` -/
def getExpired (t : TimeoutSet) (now : Timestamp) : Int :=
  match t.first with
  | none => -1
  | some e => if e.timestamp.greater now then -1 else e.coId

/-- `GetNeareastTimeGap`; `now` is the clock reading of the `Timestamp` it constructs. -/
def getNeareastTimeGap (t : TimeoutSet) (now : Timestamp) : Int :=
  match t.first with
  | none => -1
  | some e =>
    let timeGap := now.diff e.timestamp
    if timeGap < 0 then 0 else timeGap

/-- Every entry is the one its id is mapped to, and nothing else is mapped. -/
structure Wf (t : TimeoutSet) : Prop where
  mapped : ∀ e ∈ t.timeoutSet, t.timeoutPtrMap[e.coId]? = some e
  stored : ∀ k e, t.timeoutPtrMap[k]? = some e → e ∈ t.timeoutSet ∧ e.coId = k

/-- `coId` has no entry. -/
def Fresh (t : TimeoutSet) (coId : Int) : Prop := ∀ e ∈ t.timeoutSet, e.coId ≠ coId

theorem wf_empty : ({} : TimeoutSet).Wf where
  mapped e he := by simp at he
  stored k e h := by simp at h

theorem Wf.map_none {t : TimeoutSet} (hw : t.Wf) {coId : Int} (hf : t.Fresh coId) :
    t.timeoutPtrMap[coId]? = none := by
  cases h : t.timeoutPtrMap[coId]? with
  | none => rfl
  | some e =>
    obtain ⟨he, hk⟩ := hw.stored coId e h
    exact absurd hk (hf e he)

theorem Wf.unique {t : TimeoutSet} (hw : t.Wf) {e e' : CoIdTimeout} (he : e ∈ t.timeoutSet)
    (he' : e' ∈ t.timeoutSet) (h : e.coId = e'.coId) : e = e' := by
  have h₁ := hw.mapped e he
  have h₂ := hw.mapped e' he'
  rw [h, h₂] at h₁
  exact (Option.some.inj h₁).symm

theorem insert_of_fresh {t : TimeoutSet} {coId timeoutMs : Int} {now : Timestamp}
    (hf : t.Fresh coId) :
    t.insert coId timeoutMs now =
      { timeoutSet := t.timeoutSet.insert ⟨coId, now.addMillisecond timeoutMs⟩
        timeoutPtrMap :=
          t.timeoutPtrMap.insertIfNew coId ⟨coId, now.addMillisecond timeoutMs⟩ } := by
  unfold insert
  rw [if_neg]
  intro hc
  exact hf _ (Std.ExtTreeSet.contains_iff_mem.mp hc) rfl

theorem mem_insert_iff {t : TimeoutSet} {coId timeoutMs : Int} {now : Timestamp}
    (hf : t.Fresh coId) {e : CoIdTimeout} :
    e ∈ (t.insert coId timeoutMs now).timeoutSet ↔
      e = ⟨coId, now.addMillisecond timeoutMs⟩ ∨ e ∈ t.timeoutSet := by
  rw [insert_of_fresh hf]
  simp only [Std.ExtTreeSet.mem_insert, Std.LawfulEqCmp.compare_eq_iff_eq]
  rw [eq_comm]

theorem insert_wf {t : TimeoutSet} {coId timeoutMs : Int} {now : Timestamp} (hw : t.Wf)
    (hf : t.Fresh coId) : (t.insert coId timeoutMs now).Wf := by
  have hnone := hw.map_none hf
  have hnot : coId ∉ t.timeoutPtrMap := by
    rw [← Std.ExtTreeMap.contains_iff_mem, Std.ExtTreeMap.contains_eq_isSome_getElem?, hnone]
    simp
  have hmap : ∀ k, (t.insert coId timeoutMs now).timeoutPtrMap[k]? =
      if coId = k then some ⟨coId, now.addMillisecond timeoutMs⟩ else t.timeoutPtrMap[k]? := by
    intro k
    rw [insert_of_fresh hf]
    simp only [Std.ExtTreeMap.getElem?_insertIfNew, Std.LawfulEqCmp.compare_eq_iff_eq]
    by_cases hk : coId = k
    · subst hk; simp [hnot]
    · simp [hk]
  constructor
  · intro e he
    rw [hmap]
    rcases (mem_insert_iff hf).mp he with rfl | he
    · simp
    · rw [if_neg (Ne.symm (hf e he))]
      exact hw.mapped e he
  · intro k e h
    rw [hmap] at h
    rw [mem_insert_iff hf]
    split at h
    · rename_i hk
      cases h
      exact ⟨.inl rfl, hk⟩
    · obtain ⟨he, hk⟩ := hw.stored k e h
      exact ⟨.inr he, hk⟩

theorem mem_delete_iff {t : TimeoutSet} (hw : t.Wf) {coId : Int} {e : CoIdTimeout} :
    e ∈ (t.delete coId).timeoutSet ↔ e ∈ t.timeoutSet ∧ e.coId ≠ coId := by
  unfold delete
  split
  · rename_i d hd
    obtain ⟨hdm, hdk⟩ := hw.stored coId d hd
    simp only [Std.ExtTreeSet.mem_erase, Std.LawfulEqCmp.compare_eq_iff_eq, ne_eq]
    constructor
    · rintro ⟨hne, he⟩
      exact ⟨he, fun hk => hne (hw.unique hdm he (hdk.trans hk.symm))⟩
    · rintro ⟨he, hk⟩
      exact ⟨fun h => hk (h ▸ hdk), he⟩
  · rename_i hd
    constructor
    · intro he
      refine ⟨he, fun hk => ?_⟩
      have := hw.mapped e he
      rw [hk, hd] at this
      cases this
    · exact And.left

theorem delete_wf {t : TimeoutSet} (hw : t.Wf) (coId : Int) : (t.delete coId).Wf := by
  have hmap : ∀ k, (t.delete coId).timeoutPtrMap[k]? =
      if coId = k then none else t.timeoutPtrMap[k]? := by
    intro k
    unfold delete
    split
    · simp [Std.ExtTreeMap.getElem?_erase]
    · rename_i hd
      by_cases hk : coId = k
      · subst hk; simp [hd]
      · simp [hk]
  constructor
  · intro e he
    obtain ⟨he, hne⟩ := (mem_delete_iff hw).mp he
    rw [hmap, if_neg (Ne.symm hne)]
    exact hw.mapped e he
  · intro k e h
    rw [hmap] at h
    split at h
    · cases h
    · rename_i hk
      obtain ⟨he, hek⟩ := hw.stored k e h
      exact ⟨(mem_delete_iff hw).mpr ⟨he, fun h' => hk (h' ▸ hek)⟩, hek⟩

theorem delete_insert {t : TimeoutSet} {coId timeoutMs : Int} {now : Timestamp} (hw : t.Wf)
    (hf : t.Fresh coId) : (t.insert coId timeoutMs now).delete coId = t := by
  have hw' : (t.insert coId timeoutMs now).Wf := insert_wf hw hf
  have hset : ((t.insert coId timeoutMs now).delete coId).timeoutSet = t.timeoutSet := by
    apply Std.ExtTreeSet.ext_mem
    intro e
    rw [mem_delete_iff hw', mem_insert_iff hf]
    constructor
    · rintro ⟨rfl | he, hne⟩
      · exact absurd rfl hne
      · exact he
    · intro he
      exact ⟨.inr he, hf e he⟩
  have hmap : ((t.insert coId timeoutMs now).delete coId).timeoutPtrMap = t.timeoutPtrMap := by
    apply Std.ExtTreeMap.ext_getElem?
    intro k
    have hd := delete_wf hw' coId
    cases h : t.timeoutPtrMap[k]? with
    | none =>
      rw [Option.eq_none_iff_forall_not_mem]
      intro e he
      obtain ⟨hm, hk⟩ := hd.stored k e he
      rw [hset] at hm
      have := hw.mapped e hm
      rw [hk, h] at this
      cases this
    | some e =>
      obtain ⟨hm, hk⟩ := hw.stored k e h
      rw [← hset] at hm
      rw [← hk]
      exact hd.mapped e hm
  exact TimeoutSet.ext hset hmap

end TimeoutSet

end Net
end CoSocket
