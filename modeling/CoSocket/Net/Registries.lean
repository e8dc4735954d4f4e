import CoSocket.Net.Table

/-!
# Net.Registries

The four places that hold coroutine ids — the `FdWatcher` slots, the timeout set, the wait sets of
the conditions and `m_waitResumeList` — and what each of them knows about the coroutine behind an
id. One invariant for each, proved over the moves:

* `Slots`      — a slot holds a coroutine that is in a call on that descriptor and direction.
* `Timers`     — the timeout set holds one entry for each coroutine in a call with a timeout.
* `Conditions` — a wait set holds coroutines suspended in a `ConditionWait` filed under its key, and
  the pending part of `m_waitResumeList` those that are notified; nobody is in two of them.

`registries_sound` puts them together, for the states in which no coroutine runs and for every
`coroutine_resume` the main loop makes.
-/

namespace CoSocket
namespace Net

open Base Lts

/-! ## Slots -/

def Slots (s : St) : Prop :=
  ∀ fd d, s.slot fd d ≠ -1 →
    ∃ call reg, s.InCall (s.slot fd d) (.io call reg) ∧ call.fd = fd ∧ call.kind.dir = d

/-- Slots that are set in both states and coroutines that stay in their calls keep the
invariant. -/
theorem Slots.frame {s s' : St} (h : Slots s)
    (hs : ∀ fd d, s'.slot fd d ≠ -1 → s'.slot fd d = s.slot fd d)
    (hin : ∀ fd d w, s'.slot fd d ≠ -1 → s.InCall (s.slot fd d) w → s'.InCall (s.slot fd d) w) :
    Slots s' := by
  intro fd d hne
  have he := hs fd d hne
  obtain ⟨call, reg, hc, hfd, hd⟩ := h fd d (he ▸ hne)
  exact ⟨call, reg, he ▸ hin fd d _ hne hc, hfd, hd⟩

theorem slots_init (isOpen : Std.ExtTreeSet Int) : Slots (St.init isOpen) := by
  intro fd d h
  cases d <;> simp [St.slot, St.watcher, St.init, FdWatcher.slot] at h

/-- The running coroutine registers in the slot of its call. -/
theorem slots_wait {s s' : St} (h : Slots s) (hu : s.inUser = true) {call : IoCall} (reg : Nat)
    (hs : ∀ fd d, s'.slot fd d =
      if call.fd = fd ∧ call.kind.dir = d then s.running else s.slot fd d)
    (hin : ∀ id w, s'.InCall id w ↔
      id = s.running ∧ w = .io call reg ∨ id ≠ s.running ∧ s.InCall id w) : Slots s' := by
  intro fd d hne
  rw [hs] at hne ⊢
  split
  · rename_i hk
    exact ⟨call, reg, (hin _ _).mpr (.inl ⟨rfl, rfl⟩), hk.1, hk.2⟩
  · rename_i hk
    rw [if_neg hk] at hne
    obtain ⟨call', reg', hc, hfd, hd⟩ := h fd d hne
    have hr : s.slot fd d ≠ s.running := fun he => not_inCall_of_inUser hu _ (he ▸ hc)
    exact ⟨call', reg', (hin _ _).mpr (.inr ⟨hr, hc⟩), hfd, hd⟩

/-- The running coroutine leaves its call, and the slot of the call is emptied. -/
theorem slots_leave {s s' : St} (h : Slots s) {call : IoCall} {reg : Nat}
    (hcur : s.InCall s.running (.io call reg))
    (hs : ∀ fd d, s'.slot fd d = if call.fd = fd ∧ call.kind.dir = d then -1 else s.slot fd d)
    (hin : ∀ id w, s'.InCall id w ↔ id ≠ s.running ∧ s.InCall id w) : Slots s' := by
  intro fd d hne
  rw [hs] at hne ⊢
  split at hne
  · exact absurd rfl hne
  · rename_i hk
    rw [if_neg hk]
    obtain ⟨call', reg', hc, hfd, hd⟩ := h fd d hne
    -- a slot of the waking coroutine would be the one of its own call
    have hr : s.slot fd d ≠ s.running := by
      intro he
      have heq := hc.unique (he ▸ hcur)
      cases heq
      exact hk ⟨hfd, hd⟩
    exact ⟨call', reg', (hin _ _).mpr ⟨hr, hc⟩, hfd, hd⟩

theorem slots_move {s s' : St} {a : Act} (h : Slots s) (hm : Move s a s') : Slots s' := by
  cases hm with
  | ioReturn => exact h
  | @ioReject call =>
    have hsl : ∀ fd d, (s.setSlot call.fd call.kind.dir (-1)).slot fd d ≠ -1 →
        (s.setSlot call.fd call.kind.dir (-1)).slot fd d = s.slot fd d := by
      intro fd d hne
      rw [St.slot_setSlot] at hne ⊢
      split at hne
      · exact absurd rfl hne
      · rename_i hk
        rw [if_neg hk]
    exact h.frame hsl fun _ _ _ _ hc => hc
  | @ioWait call sys kernel c hu hc =>
    refine slots_wait h hu s.registrations (fun fd d => St.slot_setSlot _ _ _ _ _ _) fun id w => ?_
    rw [inCall_insert_iff rfl, Option.some.injEq, eq_comm (a := w)]
  | @wakeCondition retry c condition hr hc hw =>
    refine h.frame (fun _ _ _ => rfl) fun fd d w hne hin => ?_
    refine (inCall_insert_iff rfl).mpr (.inr ⟨fun he => ?_, hin⟩)
    have hcur : s.InCall (s.slot fd d) (.condition condition) := he ▸ ⟨c, hc, hw⟩
    obtain ⟨call, reg, hin', -⟩ := h fd d hne
    have heq := hin'.unique hcur
    cases heq
  | @wakeIo retry c call reg kernel kernel' hr hc hw =>
    refine slots_leave h ⟨c, hc, hw⟩ (fun fd d => St.slot_setSlot _ _ _ _ _ _) fun id w => ?_
    rw [inCall_insert_iff rfl]
    simp
  | @conditionWait condition c hu hc =>
    refine h.frame (fun _ _ _ => rfl) fun fd d w hne hin => ?_
    refine (inCall_insert_iff rfl).mpr (.inr ⟨fun he => ?_, hin⟩)
    exact not_inCall_of_inUser hu _ (he ▸ hin)
  | conditionNotify => exact h
  | getCondition => exact h
  | newCoroutine => exact h
  | spawn hm hid =>
    exact h.frame (fun _ _ _ => rfl) fun _ _ _ _ hin =>
      (inCall_new_iff (St.freeId_iff.mp hid).2 rfl).mpr hin
  | finish hu => exact h.frame (fun _ _ _ => rfl) fun _ _ _ _ hin => (inCall_exit_iff hu).mpr hin
  | openFd => exact h
  | closeFd => exact h
  | run => exact h
  | advance hr ha => cases ha <;> exact h
  | start hr hpc hf hid =>
    exact h.frame (fun _ _ _ => rfl) fun _ _ _ _ hin =>
      (inCall_new_iff (St.freeId_iff.mp hid).2 rfl).mpr hin
  | resume hr ht hid hc =>
    exact h.frame (fun _ _ _ => rfl) fun _ _ _ _ hin => (inCall_resume_iff hc rfl).mpr hin
  | resumeDead => exact h

/-! ## Timers -/

structure Timers (s : St) : Prop where
  wf : s.timeoutSet.Wf
  entry : ∀ e ∈ s.timeoutSet.timeoutSet,
    ∃ call reg, s.InCall e.coId (.io call reg) ∧ 0 < call.timeoutMs
  timed : ∀ id call reg, s.InCall id (.io call reg) → 0 < call.timeoutMs →
    ∃ e ∈ s.timeoutSet.timeoutSet, e.coId = id

theorem Timers.fresh {s : St} (h : Timers s) {id : Int} (hid : ∀ w, ¬ s.InCall id w) :
    s.timeoutSet.Fresh id := by
  intro e he hk
  obtain ⟨call, reg, hin, -⟩ := h.entry e he
  exact hid _ (hk ▸ hin)

theorem TimeoutSet.unguarded_guarded {t : TimeoutSet} {id timeoutMs : Int} {now : Timestamp}
    (hw : t.Wf) (hf : t.Fresh id) : (t.guarded id timeoutMs now).unguarded id timeoutMs = t := by
  unfold guarded unguarded
  split
  · exact delete_insert hw hf
  · rfl

theorem Timers.frame {s s' : St} (h : Timers s) (ht : s'.timeoutSet = s.timeoutSet)
    (hin : ∀ id call reg, s'.InCall id (.io call reg) ↔ s.InCall id (.io call reg)) :
    Timers s' := by
  refine ⟨ht ▸ h.wf, fun e he => ?_, fun id call reg hc hms => ?_⟩
  · rw [ht] at he
    obtain ⟨call, reg, hc, hms⟩ := h.entry e he
    exact ⟨call, reg, (hin _ _ _).mpr hc, hms⟩
  · rw [ht]
    exact h.timed id call reg ((hin _ _ _).mp hc) hms

theorem timers_init (isOpen : Std.ExtTreeSet Int) : Timers (St.init isOpen) where
  wf := TimeoutSet.wf_empty
  entry e he := by simp [St.init] at he
  timed id call reg h := by
    obtain ⟨c, hc, -⟩ := h
    simp [St.init] at hc

theorem timers_wait {s s' : St} (h : Timers s) (hu : s.inUser = true) {call : IoCall}
    {now : Timestamp} (reg : Nat)
    (ht : s'.timeoutSet = s.timeoutSet.guarded s.running call.timeoutMs now)
    (hin : ∀ id w, s'.InCall id w ↔
      id = s.running ∧ w = .io call reg ∨ id ≠ s.running ∧ s.InCall id w) : Timers s' := by
  have hf := h.fresh (not_inCall_of_inUser hu)
  unfold TimeoutSet.guarded at ht
  by_cases hms : call.timeoutMs > 0
  · rw [if_pos hms] at ht
    refine ⟨ht ▸ TimeoutSet.insert_wf h.wf hf, fun e he => ?_, fun id call' reg' hc hms' => ?_⟩
    · rw [ht, TimeoutSet.mem_insert_iff hf] at he
      rcases he with rfl | he
      · exact ⟨call, reg, (hin _ _).mpr (.inl ⟨rfl, rfl⟩), hms⟩
      · obtain ⟨call', reg', hc, hms'⟩ := h.entry e he
        exact ⟨call', reg', (hin _ _).mpr (.inr ⟨hf e he, hc⟩), hms'⟩
    · rw [ht]
      rcases (hin _ _).mp hc with ⟨rfl, -⟩ | ⟨-, hc⟩
      · exact ⟨_, (TimeoutSet.mem_insert_iff hf).mpr (.inl rfl), rfl⟩
      · obtain ⟨e, he, hk⟩ := h.timed id call' reg' hc hms'
        exact ⟨e, (TimeoutSet.mem_insert_iff hf).mpr (.inr he), hk⟩
  · rw [if_neg hms] at ht
    refine ⟨ht ▸ h.wf, fun e he => ?_, fun id call' reg' hc hms' => ?_⟩
    · rw [ht] at he
      obtain ⟨call', reg', hc, hms'⟩ := h.entry e he
      exact ⟨call', reg', (hin _ _).mpr (.inr ⟨hf e he, hc⟩), hms'⟩
    · rw [ht]
      rcases (hin _ _).mp hc with ⟨-, heq⟩ | ⟨-, hc⟩
      · cases heq
        exact absurd hms' hms
      · exact h.timed id call' reg' hc hms'

theorem timers_leave {s s' : St} (h : Timers s) {call : IoCall} {reg : Nat}
    (hcur : s.InCall s.running (.io call reg))
    (ht : s'.timeoutSet = s.timeoutSet.unguarded s.running call.timeoutMs)
    (hin : ∀ id w, s'.InCall id w ↔ id ≠ s.running ∧ s.InCall id w) : Timers s' := by
  unfold TimeoutSet.unguarded at ht
  by_cases hms : call.timeoutMs > 0
  · rw [if_pos hms] at ht
    refine ⟨ht ▸ TimeoutSet.delete_wf h.wf _, fun e he => ?_, fun id call' reg' hc hms' => ?_⟩
    · rw [ht, TimeoutSet.mem_delete_iff h.wf] at he
      obtain ⟨call', reg', hc, hms'⟩ := h.entry e he.1
      exact ⟨call', reg', (hin _ _).mpr ⟨he.2, hc⟩, hms'⟩
    · rw [ht]
      obtain ⟨hne, hc⟩ := (hin _ _).mp hc
      obtain ⟨e, he, hk⟩ := h.timed id call' reg' hc hms'
      exact ⟨e, (TimeoutSet.mem_delete_iff h.wf).mpr ⟨he, hk ▸ hne⟩, hk⟩
  · rw [if_neg hms] at ht
    refine ⟨ht ▸ h.wf, fun e he => ?_, fun id call' reg' hc hms' => ?_⟩
    · rw [ht] at he
      obtain ⟨call', reg', hc, hms'⟩ := h.entry e he
      refine ⟨call', reg', (hin _ _).mpr ⟨fun hk => ?_, hc⟩, hms'⟩
      have heq := hc.unique (hk ▸ hcur)
      cases heq
      exact hms hms'
    · rw [ht]
      exact h.timed id call' reg' ((hin _ _).mp hc).2 hms'

theorem timers_move {s s' : St} {a : Act} (h : Timers s) (hm : Move s a s') : Timers s' := by
  cases hm with
  | ioReturn => exact ⟨h.wf, h.entry, h.timed⟩
  | ioReject hu =>
    have hf := h.fresh (not_inCall_of_inUser hu)
    exact h.frame (TimeoutSet.unguarded_guarded h.wf hf) fun _ _ _ => Iff.rfl
  | @ioWait call sys kernel c hu hc =>
    refine timers_wait h hu s.registrations rfl fun id w => ?_
    rw [inCall_insert_iff rfl, Option.some.injEq, eq_comm (a := w)]
  | @wakeCondition retry c condition hr hc hw =>
    refine h.frame rfl fun id call reg => inCall_insert_other rfl (by simp) fun hin => ?_
    have heq := hin.unique ⟨c, hc, hw⟩
    cases heq
  | @wakeIo retry c call reg kernel kernel' hr hc hw =>
    refine timers_leave h ⟨c, hc, hw⟩ rfl fun id w => ?_
    rw [inCall_insert_iff rfl]
    simp
  | @conditionWait condition c hu hc =>
    exact h.frame rfl fun _ _ _ => inCall_insert_other rfl (by simp) (not_inCall_of_inUser hu _)
  | conditionNotify => exact ⟨h.wf, h.entry, h.timed⟩
  | getCondition => exact ⟨h.wf, h.entry, h.timed⟩
  | newCoroutine => exact ⟨h.wf, h.entry, h.timed⟩
  | spawn hm hid => exact h.frame rfl fun _ _ _ => inCall_new_iff (St.freeId_iff.mp hid).2 rfl
  | finish hu => exact h.frame rfl fun _ _ _ => inCall_exit_iff hu
  | openFd => exact ⟨h.wf, h.entry, h.timed⟩
  | closeFd => exact ⟨h.wf, h.entry, h.timed⟩
  | run => exact ⟨h.wf, h.entry, h.timed⟩
  | advance hr ha => cases ha <;> exact ⟨h.wf, h.entry, h.timed⟩
  | start hr hpc hf hid =>
    exact h.frame rfl fun _ _ _ => inCall_new_iff (St.freeId_iff.mp hid).2 rfl
  | resume hr ht hid hc => exact h.frame rfl fun _ _ _ => inCall_resume_iff hc rfl
  | resumeDead => exact ⟨h.wf, h.entry, h.timed⟩

theorem TimeoutSet.getExpired_mem {t : TimeoutSet} {now : Timestamp}
    (h : t.getExpired now ≠ -1) : ∃ e ∈ t.timeoutSet, e.coId = t.getExpired now := by
  cases hf : t.first with
  | none => simp [getExpired, hf] at h
  | some e =>
    have he : e ∈ t.timeoutSet := Std.ExtTreeSet.mem_toList.mp (List.mem_of_head? hf)
    cases hg : e.timestamp.greater now with
    | true => simp [getExpired, hf, hg] at h
    | false => exact ⟨e, he, by simp [getExpired, hf, hg]⟩

/-! ## Conditions -/

structure Conditions (s : St) : Prop where
  passed_le : s.passed ≤ s.waitResumeList.length
  filed : ∀ key id, id ∈ s.waiters key →
    id ≠ s.running ∧ ∃ c, s.InCall id (.condition c) ∧ conditionKey c = key
  notified : ∀ id ∈ s.pending,
    id ≠ s.running ∧ (∃ c, s.InCall id (.condition c)) ∧ ∀ key, id ∉ s.waiters key
  nodup : s.pending.Nodup
  parked : ∀ id c, s.InCall id (.condition c) → id ≠ s.running →
    id ∈ s.waiters (conditionKey c) ∨ id ∈ s.pending

/-- The wait sets and the pending list stay, and so does everybody who waits for a condition. -/
theorem Conditions.frame {s s' : St} (h : Conditions s)
    (hp : s'.passed ≤ s'.waitResumeList.length) (hw : ∀ key, s'.waiters key = s.waiters key)
    (hpend : s'.pending = s.pending)
    (hin : ∀ id c, s'.InCall id (.condition c) ∧ id ≠ s'.running ↔
      s.InCall id (.condition c) ∧ id ≠ s.running) : Conditions s' := by
  refine ⟨hp, fun key id hid => ?_, fun id hid => ?_, hpend ▸ h.nodup, fun id c hc hne => ?_⟩
  · rw [hw] at hid
    obtain ⟨hne, c, hc, hk⟩ := h.filed key id hid
    obtain ⟨hc', hne'⟩ := (hin id c).mpr ⟨hc, hne⟩
    exact ⟨hne', c, hc', hk⟩
  · rw [hpend] at hid
    obtain ⟨hne, ⟨c, hc⟩, hnot⟩ := h.notified id hid
    obtain ⟨hc', hne'⟩ := (hin id c).mpr ⟨hc, hne⟩
    exact ⟨hne', ⟨c, hc'⟩, fun key => by rw [hw]; exact hnot key⟩
  · rw [hw, hpend]
    obtain ⟨hc, hne⟩ := (hin id c).mp ⟨hc, hne⟩
    exact h.parked id c hc hne

theorem conditions_init (isOpen : Std.ExtTreeSet Int) : Conditions (St.init isOpen) where
  passed_le := Nat.le_refl 0
  filed key id h := by simp [St.waiters, St.init] at h
  notified id h := by simp [St.pending, St.init] at h
  nodup := by simp [St.pending, St.init]
  parked id c h := by
    obtain ⟨c, hc, -⟩ := h
    simp [St.init] at hc

theorem waiters_insert {s s' : St} {key : Int} {list : Std.ExtTreeSet Int}
    (h : s'.conditionMap = s.conditionMap.insert key list) (key' : Int) :
    s'.waiters key' = if key = key' then list else s.waiters key' := by
  simp [St.waiters, h, Std.ExtTreeMap.getD_insert]

/-- `ConditionWait`: the running coroutine is filed under the key and suspended. -/
theorem conditions_wait {s s' : St} (h : Conditions s) (ht : Table s) (hu : s.inUser = true)
    {condition : Nat} (hp : s'.passed = s.passed) (hl : s'.waitResumeList = s.waitResumeList)
    (hr : s'.running = -1)
    (hw : ∀ key, s'.waiters key = if conditionKey condition = key then
      (s.waiters (conditionKey condition)).insert s.running else s.waiters key)
    (hin : ∀ id w, s'.InCall id w ↔
      id = s.running ∧ w = .condition condition ∨ id ≠ s.running ∧ s.InCall id w) :
    Conditions s' := by
  have hcur := not_inCall_of_inUser hu
  have hrun := running_of_inUser hu
  have hpend : s'.pending = s.pending := by rw [St.pending, St.pending, hp, hl]
  have hmem : ∀ key id, id ∈ s'.waiters key ↔
      conditionKey condition = key ∧ id = s.running ∨ id ∈ s.waiters key := by
    intro key id
    rw [hw]
    by_cases hk : conditionKey condition = key
    · subst hk
      rw [if_pos rfl, Std.ExtTreeSet.mem_insert, Std.LawfulEqCmp.compare_eq_iff_eq,
        eq_comm (a := s.running)]
      simp
    · simp [hk]
  refine ⟨by rw [hp, hl]; exact h.passed_le, fun key id hid => ?_, fun id hid => ?_,
    hpend ▸ h.nodup, fun id c hc hne => ?_⟩
  · rcases (hmem key id).mp hid with ⟨hk, rfl⟩ | hid
    · exact ⟨by rw [hr]; exact hrun, condition, (hin _ _).mpr (.inl ⟨rfl, rfl⟩), hk⟩
    · obtain ⟨hne, c, hc, hk⟩ := h.filed key id hid
      have := ht.inCall_nonneg hc
      exact ⟨by omega, c, (hin _ _).mpr (.inr ⟨hne, hc⟩), hk⟩
  · rw [hpend] at hid
    obtain ⟨hne, ⟨c, hc⟩, hnot⟩ := h.notified id hid
    have := ht.inCall_nonneg hc
    refine ⟨by omega, ⟨c, (hin _ _).mpr (.inr ⟨hne, hc⟩)⟩, fun key hk => ?_⟩
    rcases (hmem key id).mp hk with ⟨-, he⟩ | hk
    · exact hne he
    · exact hnot key hk
  · rw [hpend, hmem]
    rcases (hin _ _).mp hc with ⟨rfl, heq⟩ | ⟨hne, hc⟩
    · cases heq
      exact .inl (.inl ⟨rfl, rfl⟩)
    · rcases h.parked id c hc hne with hk | hk
      · exact .inl (.inr hk)
      · exact .inr hk

theorem St.pending_conditionNotify {s : St} (h : Conditions s) (condition : Nat) :
    (s.conditionNotify condition).pending =
      s.pending ++ (s.waiters (conditionKey condition)).toList :=
  List.drop_append_of_le_length h.passed_le

theorem St.nodup_waiters (s : St) (key : Int) : (s.waiters key).toList.Nodup := by
  have hdistinct := Std.ExtTreeSet.distinct_toList (t := s.waiters key)
  refine hdistinct.imp fun hne he => hne ?_
  rw [he]
  exact Std.ReflCmp.compare_self

/-- `ConditionNotify`: the wait set of the key moves to the pending list. -/
theorem conditions_notify {s : St} (h : Conditions s) (condition : Nat) :
    Conditions (s.conditionNotify condition) := by
  let key := conditionKey condition
  have hw : ∀ key', (s.conditionNotify condition).waiters key' =
      if key = key' then ∅ else s.waiters key' := waiters_insert rfl
  have hpend := St.pending_conditionNotify h condition
  have hlist : ∀ id, id ∈ (s.waiters key).toList ↔ id ∈ s.waiters key :=
    fun _ => Std.ExtTreeSet.mem_toList
  refine ⟨?_, fun key' id hid => ?_, fun id hid => ?_, ?_, fun id c hc hne => ?_⟩
  · have := h.passed_le
    simp only [St.conditionNotify, List.length_append]
    exact Nat.le_add_right_of_le this
  · rw [hw] at hid
    split at hid
    · simp at hid
    · exact h.filed key' id hid
  · rw [hpend, List.mem_append, hlist] at hid
    rcases hid with hid | hid
    · obtain ⟨hne, hc, hnot⟩ := h.notified id hid
      refine ⟨hne, hc, fun key' hk => ?_⟩
      rw [hw] at hk
      split at hk
      · simp at hk
      · exact hnot key' hk
    · obtain ⟨hne, c, hc, hk⟩ := h.filed key id hid
      refine ⟨hne, ⟨c, hc⟩, fun key' hk' => ?_⟩
      rw [hw] at hk'
      split at hk'
      · simp at hk'
      · rename_i hkey
        obtain ⟨-, c', hc', hk''⟩ := h.filed key' id hk'
        have heq := hc.unique hc'
        cases heq
        exact hkey (hk.symm.trans hk'')
  · rw [hpend]
    refine List.nodup_append.mpr ⟨h.nodup, s.nodup_waiters key, fun id hid id' hid' he => ?_⟩
    subst he
    exact (h.notified id hid).2.2 key ((hlist id).mp hid')
  · rw [hpend, List.mem_append, hlist, hw]
    rcases h.parked id c hc hne with hk | hk
    · by_cases hkey : key = conditionKey c
      · exact .inr (.inr (hkey ▸ hk))
      · exact .inl (by rw [if_neg hkey]; exact hk)
    · exact .inr (.inl hk)

theorem pending_of_waitResume {s : St} {it : Nat} {id : Int} (hpc : s.pc = .waitResume it)
    (hid : s.waitResumeList[it]? = some id) :
    s.pending = id :: s.waitResumeList.drop (it + 1) := by
  obtain ⟨hlt, rfl⟩ := List.getElem?_eq_some_iff.mp hid
  rw [St.pending, St.passed, hpc]
  exact List.drop_eq_getElem_cons hlt

theorem conditions_resume_notified {s s' : St} (h : Conditions s) {it : Nat} {id : Int}
    (hpc : s.pc = .waitResume it) (hid : s.waitResumeList[it]? = some id)
    (hidle : s.running = -1) (ht : Table s) (hr : s'.running = id)
    (hpc' : s'.pc = .waitResume (it + 1)) (hl : s'.waitResumeList = s.waitResumeList)
    (hw : ∀ key, s'.waiters key = s.waiters key)
    (hin : ∀ k w, s'.InCall k w ↔ s.InCall k w) : Conditions s' := by
  have hpend := pending_of_waitResume hpc hid
  have hpend' : s'.pending = s.waitResumeList.drop (it + 1) := by
    simp [St.pending, St.passed, hpc', hl]
  have hnd : id ∉ s'.pending ∧ s'.pending.Nodup := by
    rw [hpend']
    exact List.nodup_cons.mp (hpend ▸ h.nodup)
  have hnot := (h.notified id (by rw [hpend]; exact List.mem_cons_self)).2.2
  have hsub : ∀ k ∈ s'.pending, k ∈ s.pending := by
    intro k hk
    rw [hpend, ← hpend']
    exact List.mem_cons_of_mem _ hk
  refine ⟨?_, fun key k hk => ?_, fun k hk => ?_, hnd.2, fun k c hc hne => ?_⟩
  · obtain ⟨hlt, -⟩ := List.getElem?_eq_some_iff.mp hid
    simpa [St.passed, hpc', hl] using hlt
  · rw [hw] at hk
    obtain ⟨-, c, hc, hkey⟩ := h.filed key k hk
    exact ⟨fun he => hnot key (hr ▸ he ▸ hk), c, (hin _ _).mpr hc, hkey⟩
  · obtain ⟨-, ⟨c, hc⟩, hk'⟩ := h.notified k (hsub k hk)
    exact ⟨fun he => hnd.1 (hr ▸ he ▸ hk), ⟨c, (hin _ _).mpr hc⟩, fun key => by
      rw [hw]; exact hk' key⟩
  · have hc₀ := (hin _ _).mp hc
    have hk0 := ht.inCall_nonneg hc₀
    rw [hw]
    rcases h.parked k c hc₀ (by omega) with hk | hk
    · exact .inl hk
    · rw [hpend, List.mem_cons, ← hpend'] at hk
      rcases hk with rfl | hk
      · exact absurd hr.symm hne
      · exact .inr hk

theorem Target.inCall {s : St} (hs : Slots s) (ht : Timers s) (hc : Conditions s) {pc' : Pc}
    {id : Int} {why : Why} (h : Target s pc' id why) : ∃ w, s.InCall id w := by
  cases h with
  | notified hpc hid =>
    obtain ⟨-, ⟨c, hin⟩, -⟩ := hc.notified id (by rw [pending_of_waitResume hpc hid]; simp)
    exact ⟨_, hin⟩
  | read hpc hw hne =>
    obtain ⟨call, reg, hin, -⟩ := hs _ _ hne
    exact ⟨_, hin⟩
  | write hpc hw hne =>
    obtain ⟨call, reg, hin, -⟩ := hs _ _ hne
    exact ⟨_, hin⟩
  | timeout hpc hne =>
    obtain ⟨e, he, hk⟩ := TimeoutSet.getExpired_mem hne
    obtain ⟨call, reg, hin, -⟩ := ht.entry e he
    exact ⟨_, hk ▸ hin⟩

theorem pending_eq {s : St} (h : ∀ it, s.pc ≠ .waitResume it) :
    s.passed = 0 ∧ s.pending = s.waitResumeList := by
  have h0 : s.passed = 0 := by
    unfold St.passed
    split
    · rename_i it hpc; exact absurd hpc (h it)
    · rfl
  exact ⟨h0, by rw [St.pending, h0, List.drop_zero]⟩

theorem Conditions.move_pc {s s' : St} (h : Conditions s) (hpc : ∀ it, s.pc ≠ .waitResume it)
    (hpc' : s'.passed = 0) (hl : s'.waitResumeList = s.waitResumeList)
    (hw : ∀ key, s'.waiters key = s.waiters key)
    (hin : ∀ id c, s'.InCall id (.condition c) ∧ id ≠ s'.running ↔
      s.InCall id (.condition c) ∧ id ≠ s.running) : Conditions s' := by
  obtain ⟨-, hp⟩ := pending_eq hpc
  refine h.frame (by rw [hpc']; exact Nat.zero_le _) hw ?_ hin
  rw [hp, St.pending, hpc', List.drop_zero, hl]

/-- A coroutine starts to run that is none of those that wait for a condition. -/
theorem conditions_run {s s' : St} (h : Conditions s) (ht : Table s) {id : Int}
    (hno : ∀ c, ¬ s.InCall id (.condition c)) (hidle : s.running = -1)
    (hpc : ∀ it, s.pc ≠ .waitResume it) (hpc' : s'.passed = 0) (hr : s'.running = id)
    (hl : s'.waitResumeList = s.waitResumeList) (hw : ∀ key, s'.waiters key = s.waiters key)
    (hin : ∀ k w, s'.InCall k w ↔ s.InCall k w) : Conditions s' := by
  refine h.move_pc hpc hpc' hl hw fun k c => ?_
  rw [hin, hr, hidle]
  constructor
  · rintro ⟨hc, -⟩
    have := ht.inCall_nonneg hc
    exact ⟨hc, by omega⟩
  · rintro ⟨hc, -⟩
    refine ⟨hc, ?_⟩
    rintro rfl
    exact hno c hc

theorem conditions_resume_io {s s' : St} (h : Conditions s) (ht : Table s) {id : Int}
    {call : IoCall} {reg : Nat} (hio : s.InCall id (.io call reg)) (hidle : s.running = -1)
    (hpc : ∀ it, s.pc ≠ .waitResume it) (hpc' : s'.passed = 0) (hr : s'.running = id)
    (hl : s'.waitResumeList = s.waitResumeList) (hw : ∀ key, s'.waiters key = s.waiters key)
    (hin : ∀ k w, s'.InCall k w ↔ s.InCall k w) : Conditions s' := by
  refine conditions_run h ht (fun c hc => ?_) hidle hpc hpc' hr hl hw hin
  have heq := hc.unique hio
  cases heq

theorem conditions_advance {s s' : St} {env : Env} (h : Conditions s) (ha : Advance s env s') :
    Conditions s' := by
  cases ha with
  | newCoFunc hpc _ => exact h.move_pc (by simp [hpc]) rfl rfl (fun _ => rfl) fun _ _ => Iff.rfl
  | @waitResume it hpc hend =>
    have hpend : s.pending = [] := by
      rw [St.pending, St.passed, hpc]
      exact List.drop_eq_nil_of_le (List.getElem?_eq_none_iff.mp hend)
    exact h.frame (Nat.le_refl 0) (fun _ => rfl) (by rw [hpend]; rfl) fun _ _ => Iff.rfl
  | poll hpc => exact h.move_pc (by simp [hpc]) rfl rfl (fun _ => rfl) fun _ _ => Iff.rfl
  | batchEnd hpc => exact h.move_pc (by simp [hpc]) rfl rfl (fun _ => rfl) fun _ _ => Iff.rfl
  | batchSkip hpc => exact h.move_pc (by simp [hpc]) rfl rfl (fun _ => rfl) fun _ _ => Iff.rfl
  | eventOut hpc => exact h.move_pc (by simp [hpc]) rfl rfl (fun _ => rfl) fun _ _ => Iff.rfl
  | eventEnd hpc => exact h.move_pc (by simp [hpc]) rfl rfl (fun _ => rfl) fun _ _ => Iff.rfl
  | timeoutEnd hpc _ => exact h.move_pc (by simp [hpc]) rfl rfl (fun _ => rfl) fun _ _ => Iff.rfl

theorem conditions_start {s s' : St} (h : Conditions s) (ht : Table s) {id : Int}
    (hfree : s.co[id]? = none) (hidle : s.running = -1) (hpc : ∀ it, s.pc ≠ .waitResume it)
    (hpc' : s'.passed = 0) (hr : s'.running = id) (hl : s'.waitResumeList = s.waitResumeList)
    (hw : ∀ key, s'.waiters key = s.waiters key) (hin : ∀ k w, s'.InCall k w ↔ s.InCall k w) :
    Conditions s' := by
  refine conditions_run h ht (fun c hc => ?_) hidle hpc hpc' hr hl hw hin
  obtain ⟨c', hc', -⟩ := hc
  rw [hfree] at hc'
  cases hc'

theorem conditions_move {s s' : St} {a : Act} (h : Conditions s) (ht : Table s) (hs : Slots s)
    (hti : Timers s) (hm : Move s a s') : Conditions s' := by
  cases hm with
  | ioReturn | ioReject | getCondition | newCoroutine | openFd | closeFd =>
    exact ⟨h.passed_le, h.filed, h.notified, h.nodup, h.parked⟩
  | @ioWait call sys kernel c hu hc =>
    refine h.frame h.passed_le (fun _ => rfl) rfl fun id c' => ?_
    rw [inCall_insert_iff rfl]
    constructor
    · rintro ⟨⟨-, hn⟩ | ⟨hne, hin⟩, -⟩
      · cases hn
      · exact ⟨hin, hne⟩
    · rintro ⟨hin, hne⟩
      have := ht.inCall_nonneg hin
      exact ⟨.inr ⟨hne, hin⟩, show id ≠ -1 by omega⟩
  | wakeCondition | wakeIo =>
    refine h.frame h.passed_le (fun _ => rfl) rfl fun id c' => ?_
    rw [inCall_insert_iff rfl]
    simp +contextual
  | @conditionWait condition c hu hc =>
    refine conditions_wait h ht hu rfl rfl rfl (waiters_insert rfl) fun id w => ?_
    rw [inCall_insert_iff rfl, Option.some.injEq, eq_comm (a := w)]
  | conditionNotify => exact conditions_notify h _
  | spawn hm hid =>
    obtain ⟨hidle, hpc⟩ := idle_of_inMain hm
    have hfree := (St.freeId_iff.mp hid).2
    refine conditions_start h ht hfree hidle (by simp [hpc]) ?_ rfl rfl (fun _ => rfl)
      fun _ _ => inCall_new_iff hfree rfl
    simp [St.passed, hpc]
  | finish hu =>
    refine h.frame h.passed_le (fun _ => rfl) rfl fun id c' => ?_
    rw [inCall_exit_iff hu]
    constructor
    · rintro ⟨hin, -⟩
      exact ⟨hin, fun he => not_inCall_of_inUser hu _ (he ▸ hin)⟩
    · rintro ⟨hin, -⟩
      have := ht.inCall_nonneg hin
      exact ⟨hin, show id ≠ -1 by omega⟩
  | run hm =>
    obtain ⟨-, hpc⟩ := idle_of_inMain hm
    exact h.move_pc (by simp [hpc]) rfl rfl (fun _ => rfl) fun _ _ => Iff.rfl
  | advance hr ha => exact conditions_advance h ha
  | start hr hpc hf hid =>
    have hfree := (St.freeId_iff.mp hid).2
    exact conditions_start h ht hfree hr (by simp [hpc]) rfl rfl rfl (fun _ => rfl)
      fun _ _ => inCall_new_iff hfree rfl
  | resume hr htar hid hc =>
    cases htar with
    | notified hpc hidx =>
      exact conditions_resume_notified h hpc hidx hr ht rfl rfl rfl (fun _ => rfl)
        fun _ _ => inCall_resume_iff hc rfl
    | read hpc hw hne | write hpc hw hne =>
      obtain ⟨call, reg, hio, -⟩ := hs _ _ hne
      exact conditions_resume_io h ht hio hr (by simp [hpc]) rfl rfl rfl (fun _ => rfl)
        fun _ _ => inCall_resume_iff hc rfl
    | timeout hpc hne =>
      obtain ⟨e, he, hk⟩ := TimeoutSet.getExpired_mem hne
      obtain ⟨call, reg, hio, -⟩ := hti.entry e he
      exact conditions_resume_io h ht (hk ▸ hio) hr (by simp [hpc]) rfl rfl rfl (fun _ => rfl)
        fun _ _ => inCall_resume_iff hc rfl
  | resumeDead hr htar hc =>
    -- every target is live, so `coroutine_resume` never meets a free entry
    obtain ⟨w, c, hc', -⟩ := htar.inCall hs hti h
    rw [hc] at hc'
    cases hc'

/-! ## All registries, along a run -/

structure Inv (s : St) : Prop where
  table : Table s
  slots : Slots s
  timers : Timers s
  conditions : Conditions s

theorem inv_init (isOpen : Std.ExtTreeSet Int) : Inv (St.init isOpen) :=
  ⟨table_init isOpen, slots_init isOpen, timers_init isOpen, conditions_init isOpen⟩

theorem inv_move {s s' : St} {a : Act} (h : Inv s) (hm : Move s a s') : Inv s' :=
  ⟨table_move h.table hm, slots_move h.slots hm, timers_move h.timers hm,
    conditions_move h.conditions h.table h.slots h.timers hm⟩

theorem reach_inv {P : St → Act → Prop} {isOpen : Std.ExtTreeSet Int} {s : St}
    (h : Reach St.step P (St.init isOpen) s) : Inv s :=
  h.invariant (inv_init isOpen) fun _ _ _ _ hi _ hs => inv_move hi (St.step_move hs)

theorem Reachable.inv {s : St} (h : Reachable s) : Inv s := by
  obtain ⟨isOpen, hr⟩ := h
  exact reach_inv hr

/-! ## What the ids stand for -/

/-- Every stored id is a live coroutine, suspended in exactly the call the registry is about. A
notified coroutine is one that waits for a condition and is no longer filed under it. -/
structure Sound (s : St) : Prop where
  readCoId : ∀ fd, (s.watcher fd).readCoId ≠ -1 →
    ∃ call reg, s.Suspended (s.watcher fd).readCoId (.io call reg) ∧ call.fd = fd ∧
      (call.kind = .read ∨ call.kind = .accept)
  writeCoId : ∀ fd, (s.watcher fd).writeCoId ≠ -1 →
    ∃ call reg, s.Suspended (s.watcher fd).writeCoId (.io call reg) ∧ call.fd = fd ∧
      (call.kind = .write ∨ call.kind = .connect)
  timeoutSet : ∀ e ∈ s.timeoutSet.timeoutSet,
    ∃ call reg, s.Suspended e.coId (.io call reg) ∧ 0 < call.timeoutMs
  conditionMap : ∀ key id, id ∈ s.waiters key →
    ∃ c, s.Suspended id (.condition c) ∧ conditionKey c = key
  waitResumeList : ∀ id ∈ s.pending,
    ∃ c, s.Suspended id (.condition c) ∧ id ∉ s.waiters (conditionKey c)

/-- The coroutine `id` is suspended in the wait for which the main loop resumes it. -/
def Why.Matches (s : St) (id : Int) : Why → Prop
  | .start => True
  | .event fd d => ∃ call reg, s.Suspended id (.io call reg) ∧ call.fd = fd ∧ call.kind.dir = d
  | .notified => ∃ c, s.Suspended id (.condition c) ∧ id ∉ s.waiters (conditionKey c)
  | .timeout now => ∃ call reg, s.Suspended id (.io call reg) ∧ 0 < call.timeoutMs ∧
      s.timeoutSet.getExpired now = id

theorem IoKind.dir_read {k : IoKind} (h : k.dir = .read) : k = .read ∨ k = .accept := by
  cases k <;> simp_all [IoKind.dir]

theorem IoKind.dir_write {k : IoKind} (h : k.dir = .write) : k = .write ∨ k = .connect := by
  cases k <;> simp_all [IoKind.dir]

theorem Inv.sound {s : St} (h : Inv s) (hidle : s.running = -1) : Sound s := by
  have hsus : ∀ {id : Int} {w : Wait}, s.InCall id w → s.Suspended id w :=
    h.table.suspended_of_idle hidle
  constructor
  · intro fd hne
    obtain ⟨call, reg, hin, hfd, hd⟩ := h.slots fd .read hne
    exact ⟨call, reg, hsus hin, hfd, IoKind.dir_read hd⟩
  · intro fd hne
    obtain ⟨call, reg, hin, hfd, hd⟩ := h.slots fd .write hne
    exact ⟨call, reg, hsus hin, hfd, IoKind.dir_write hd⟩
  · intro e he
    obtain ⟨call, reg, hin, hms⟩ := h.timers.entry e he
    exact ⟨call, reg, hsus hin, hms⟩
  · intro key id hid
    obtain ⟨-, c, hin, hk⟩ := h.conditions.filed key id hid
    exact ⟨c, hsus hin, hk⟩
  · intro id hid
    obtain ⟨-, ⟨c, hin⟩, hnot⟩ := h.conditions.notified id hid
    exact ⟨c, hsus hin, hnot _⟩

theorem Inv.target_matches {s : St} (h : Inv s) (hidle : s.running = -1) {pc' : Pc} {id : Int}
    {why : Why} (ht : Target s pc' id why) : why.Matches s id := by
  have hsus : ∀ {id : Int} {w : Wait}, s.InCall id w → s.Suspended id w :=
    h.table.suspended_of_idle hidle
  cases ht with
  | notified hpc hid =>
    exact (h.sound hidle).waitResumeList id (by rw [pending_of_waitResume hpc hid]; simp)
  | read hpc hw hne =>
    obtain ⟨call, reg, hin, hfd, hd⟩ := h.slots _ _ hne
    exact ⟨call, reg, hsus hin, hfd, hd⟩
  | write hpc hw hne =>
    obtain ⟨call, reg, hin, hfd, hd⟩ := h.slots _ _ hne
    exact ⟨call, reg, hsus hin, hfd, hd⟩
  | timeout hpc hne =>
    obtain ⟨e, he, hk⟩ := TimeoutSet.getExpired_mem hne
    obtain ⟨call, reg, hin, hms⟩ := h.timers.entry e he
    exact ⟨call, reg, hk ▸ hsus hin, hms, rfl⟩

theorem St.resumes_some {s : St} {a : Act} {id : Int} {why : Why}
    (h : s.resumes a = some (id, why)) :
    s.running = -1 ∧ (why = .start ∨ ∃ pc', Target s pc' id why) := by
  cases a with
  | sched env =>
    simp only [St.resumes] at h
    split at h
    · rename_i hidle
      refine ⟨hidle, ?_⟩
      obtain ⟨⟨s', t⟩, hl, ht⟩ := Option.bind_eq_some_iff.mp h
      simp only at ht
      subst ht
      rcases St.loopCode_some hl with ⟨-, -, -, -, -, -, hw, -⟩ | ⟨pc', ht, -⟩
      · exact .inl hw
      · exact .inr ⟨pc', ht⟩
    · cases h
  | _ => cases h

/-- **The registries of every run.** Whenever no coroutine runs, each stored id is a live
coroutine, suspended in the call the registry is about; and whenever the main loop calls
`coroutine_resume`, it names a live suspended coroutine and resumes it for the wait it is in. -/
theorem registries_sound {s : St} (h : Reachable s) :
    (s.running = -1 → Sound s) ∧
      ∀ a id why, s.resumes a = some (id, why) → why.Matches s id := by
  refine ⟨h.inv.sound, fun a id why hres => ?_⟩
  obtain ⟨hidle, rfl | ⟨pc', ht⟩⟩ := St.resumes_some hres
  · exact trivial
  · exact h.inv.target_matches hidle ht

/-- A coroutine reads descriptor 5 with a timeout of a second, finds no data and waits; the main
loop gets an event for it. -/
def readerActs : List Act :=
  [.newCoroutine 0 0, .io ⟨.read, 5, 1000, 1⟩ ⟨⟨1700000000, 0⟩, .err .EAGAIN, .err .EAGAIN⟩,
    .run, .sched {}, .sched {}, .sched { batch := [(5, EPOLLIN)] }]

theorem registries_sound_reader :
    Reachable (St.after [5] readerActs) ∧ (St.after [5] readerActs).running = -1 ∧
    ((St.after [5] readerActs).watcher 5).readCoId = 0 ∧ Sound (St.after [5] readerActs) ∧
    (St.after [5] readerActs).resumes (.sched {}) = some (0, .event 5 .read) ∧
    (Why.event 5 .read).Matches (St.after [5] readerActs) 0 := by
  have hr : Reachable (St.after [5] readerActs) := reachable_after (by decide)
  have hidle : (St.after [5] readerActs).running = -1 := by decide
  have hres : (St.after [5] readerActs).resumes (.sched {}) = some (0, .event 5 .read) := by decide
  exact ⟨hr, hidle, by decide, (registries_sound hr).1 hidle, hres,
    (registries_sound hr).2 _ _ _ hres⟩

end Net
end CoSocket
