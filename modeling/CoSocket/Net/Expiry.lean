import CoSocket.Net.TimedOut
import CoSocket.Net.Deadlines

/-!
# Net.Expiry

The timeout entries of a run, and the loop of `RunTimeoutCo` over them.

An entry is made by the guard of one blocking call and taken back by the same guard; `Insert` and
`Delete` can each fail without a word, but in no run they do: `timeout_entries` says that the
entries are those of the timed calls in force and that a guard removes the entry it made.

`RunTimeoutCo` has no counter. It ends because the coroutine it resumes takes its entry back and
whatever is entered meanwhile is later than the reading `now` of the loop. `remaining` is what is
left to do, in the order of the set: one resumption takes its first entry away and no step of a
coroutine changes it, so `runTimeoutCo_ends` counts it down.
-/

namespace CoSocket
namespace Net

open Base Lts

/-! ## The entries and the calls in force -/

/-- With no coroutine running: one entry for each coroutine suspended in a timed call and no other,
and the map has each under the id of its coroutine and nothing else. -/
structure EntriesMatch (s : St) : Prop where
  one : ∀ id call reg, s.Suspended id (.io call reg) → 0 < call.timeoutMs →
    ∃! e, e ∈ s.timeoutSet.timeoutSet ∧ e.coId = id
  only : ∀ e ∈ s.timeoutSet.timeoutSet,
    ∃ call reg, s.Suspended e.coId (.io call reg) ∧ 0 < call.timeoutMs
  mapped : ∀ id e, s.timeoutSet.timeoutPtrMap[id]? = some e ↔
    e ∈ s.timeoutSet.timeoutSet ∧ e.coId = id

/-- `e` is the entry that the guard of the call with the number `reg` made: of its coroutine, with
its deadline, and no entry of that coroutine was there before. -/
def MadeBy (s₀ : St) (acts : List Act) (call : IoCall) (reg : Nat) (e : CoIdTimeout) : Prop :=
  ∃ pre sys s₁, pre ++ [.io call sys] <+: acts ∧ exec St.step s₀ pre = .next s₁ ∧
    s₁.running = e.coId ∧ s₁.registrations = reg ∧ s₁.suspends call sys = true ∧
    s₁.timeoutSet.Fresh e.coId ∧ e.timestamp = sys.now.addMillisecond call.timeoutMs

theorem MadeBy.snoc {s₀ : St} {acts : List Act} {call : IoCall} {reg : Nat} {e : CoIdTimeout}
    (h : MadeBy s₀ acts call reg e) (a : Act) : MadeBy s₀ (acts ++ [a]) call reg e := by
  obtain ⟨pre, sys, s₁, hp, hrest⟩ := h
  exact ⟨pre, sys, s₁, hp.trans (List.prefix_append _ _), hrest⟩

theorem TimeoutSet.mem_unguarded_iff {t : TimeoutSet} (hw : t.Wf) {id timeoutMs : Int}
    {e : CoIdTimeout} :
    e ∈ (t.unguarded id timeoutMs).timeoutSet ↔
      e ∈ t.timeoutSet ∧ (0 < timeoutMs → e.coId ≠ id) := by
  unfold unguarded
  split
  · rename_i hms
    rw [mem_delete_iff hw]
    exact and_congr_right fun _ => (imp_iff_right hms).symm
  · rename_i hms
    exact (and_iff_left fun hpos => absurd hpos hms).symm

theorem TimeoutSet.mem_guarded_iff {t : TimeoutSet} {id timeoutMs : Int} {now : Timestamp}
    (hf : t.Fresh id) {e : CoIdTimeout} :
    e ∈ (t.guarded id timeoutMs now).timeoutSet ↔
      0 < timeoutMs ∧ e = ⟨id, now.addMillisecond timeoutMs⟩ ∨ e ∈ t.timeoutSet := by
  unfold guarded
  split
  · rename_i hms
    rw [mem_insert_iff hf, and_iff_right (show 0 < timeoutMs from hms)]
  · rename_i hms
    simp [hms]

/-- An entry was there before the step, or the step is a timed call that made it. -/
theorem entry_before {s s' : St} {a : Act} {e : CoIdTimeout} (ht : Timers s) (hm : Move s a s')
    (he : e ∈ s'.timeoutSet.timeoutSet) :
    e ∈ s.timeoutSet.timeoutSet ∨
      ∃ call sys, a = .io call sys ∧ s.inUser = true ∧ s.running = e.coId ∧
        s.suspends call sys = true ∧ 0 < call.timeoutMs ∧
        s'.InCall e.coId (.io call s.registrations) ∧
        e.timestamp = sys.now.addMillisecond call.timeoutMs := by
  cases hm with
  | ioReject hu =>
    rw [TimeoutSet.unguarded_guarded ht.wf (ht.fresh (not_inCall_of_inUser hu))] at he
    exact .inl he
  | @ioWait call sys kernel c hu hc hopen hslot hupd hb =>
    rcases (TimeoutSet.mem_guarded_iff (ht.fresh (not_inCall_of_inUser hu))).mp he with
      ⟨hms, rfl⟩ | he
    · exact .inr ⟨call, sys, rfl, hu, rfl, St.suspends_of_slot hb hslot, hms,
        (inCall_insert_iff rfl).mpr (.inl ⟨rfl, rfl⟩), rfl⟩
    · exact .inl he
  | wakeIo => exact .inl ((TimeoutSet.mem_unguarded_iff ht.wf).mp he).1
  | advance hr ha => cases ha <;> exact .inl he
  | _ => exact .inl he

/-- Every entry of a run was made by the guard of the call its coroutine is in. -/
theorem madeBy_of_mem {isOpen : Std.ExtTreeSet Int} {acts : List Act} {s : St}
    (h : exec St.step (St.init isOpen) acts = .next s) :
    ∀ e ∈ s.timeoutSet.timeoutSet, ∃ call reg, s.InCall e.coId (.io call reg) ∧
      0 < call.timeoutMs ∧ MadeBy (St.init isOpen) acts call reg e := by
  refine exec_induction (I := fun acts s => ∀ e ∈ s.timeoutSet.timeoutSet,
    ∃ call reg, s.InCall e.coId (.io call reg) ∧ 0 < call.timeoutMs ∧
      MadeBy (St.init isOpen) acts call reg e) (fun e he => ?_) ?_ h
  · simp [St.init] at he
  intro acts a s s' hpre ih hs e he
  have hm := St.step_move hs
  have hinv : Inv s := reach_inv (reach_of_exec hpre)
  rcases entry_before hinv.timers hm he with he₀ | ⟨call, sys, rfl, hu, hid, hsus, hms, hin, ht⟩
  · -- an old entry: its coroutine is in the same call, for only a coroutine in its own code
    -- gets into another one
    obtain ⟨call, reg, hin, hms, hmade⟩ := ih e he₀
    obtain ⟨call', reg', hin', -⟩ := (timers_move hinv.timers hm).entry e he
    rcases inCall_before hm hin' with hold | ⟨sys, rfl, hid, -⟩
    · cases hold.unique hin
      exact ⟨call, reg, hin', hms, hmade.snoc a⟩
    · rw [← hid] at hin
      exact absurd hin (not_inCall_of_inUser (inUser_of_step_io hs) _)
  · exact ⟨call, s.registrations, hin, hms, acts, sys, s, List.prefix_rfl, hpre, hid, rfl, hsus,
      hid ▸ hinv.timers.fresh (not_inCall_of_inUser hu), ht⟩

theorem Inv.entriesMatch {s : St} (h : Inv s) (hidle : s.running = -1) : EntriesMatch s := by
  refine ⟨fun id call reg hsus hms => ?_, (h.sound hidle).timeoutSet, fun id e => ?_⟩
  · obtain ⟨e, he, hid⟩ := h.timers.timed id call reg hsus.inCall hms
    refine ⟨e, ⟨he, hid⟩, ?_⟩
    rintro e' ⟨he', hid'⟩
    exact h.timers.wf.unique he' he (hid'.trans hid.symm)
  · constructor
    · exact h.timers.wf.stored id e
    · rintro ⟨he, rfl⟩
      exact h.timers.wf.mapped e he

/-- A resumed timed call finds its entry, and takes that one back and no other. -/
theorem wake_deletes {s s' : St} (h : Inv s) {call : IoCall} {reg : Nat} {retry : SysRet}
    (hin : s.InCall s.running (.io call reg)) (hms : 0 < call.timeoutMs)
    (hs : s.step (.wake retry) = .next s') :
    ∃ e ∈ s.timeoutSet.timeoutSet, s.timeoutSet.timeoutPtrMap[s.running]? = some e ∧
      e.coId = s.running ∧
      (∀ e', e' ∈ s'.timeoutSet.timeoutSet ↔ e' ∈ s.timeoutSet.timeoutSet ∧ e' ≠ e) := by
  obtain ⟨e, he, hid⟩ := h.timers.timed _ call reg hin hms
  refine ⟨e, he, hid ▸ h.timers.wf.mapped e he, hid, fun e' => ?_⟩
  cases St.step_move hs with
  | wakeCondition _ hc hw =>
    have heq := hin.unique ⟨_, hc, hw⟩
    cases heq
  | wakeIo _ hc hw =>
    cases hin.unique ⟨_, hc, hw⟩
    rw [TimeoutSet.mem_unguarded_iff h.timers.wf]
    refine and_congr_right fun he' => ?_
    constructor
    · rintro hne rfl
      exact hne hms hid
    · intro hne _ hid'
      exact hne (h.timers.wf.unique he' he (hid'.trans hid.symm))

/-- A call that does not yield leaves the entries as they are, whether or not it had a guard. -/
theorem timeoutSet_of_returned {s s' : St} (h : Inv s) {call : IoCall} {sys : Sys}
    (hs : s.step (.io call sys) = .next s') (hr : s'.running = s.running) :
    s'.timeoutSet = s.timeoutSet := by
  cases St.step_move hs with
  | ioReturn => rfl
  | ioReject hu =>
    exact TimeoutSet.unguarded_guarded h.timers.wf (h.timers.fresh (not_inCall_of_inUser hu))
  | ioWait hu => exact absurd hr.symm (running_of_inUser hu)

/-- **The timeout entries of every run.** With no coroutine running, the entries are those of the
coroutines suspended in timed calls. In every state an entry belongs to the call whose guard made
it, which is still in force; when that call goes on, the destructor of the guard finds this entry
and removes it and no other; and a call that returns without a wait leaves none. -/
theorem timeout_entries {isOpen : Std.ExtTreeSet Int} {acts : List Act} {s : St}
    (h : exec St.step (St.init isOpen) acts = .next s) :
    (s.running = -1 → EntriesMatch s) ∧
    (∀ e ∈ s.timeoutSet.timeoutSet, ∃ call reg, s.InCall e.coId (.io call reg) ∧
      0 < call.timeoutMs ∧ MadeBy (St.init isOpen) acts call reg e) ∧
    (∀ call reg retry s', s.InCall s.running (.io call reg) → 0 < call.timeoutMs →
      s.step (.wake retry) = .next s' →
      ∃ e ∈ s.timeoutSet.timeoutSet, s.timeoutSet.timeoutPtrMap[s.running]? = some e ∧
        MadeBy (St.init isOpen) acts call reg e ∧
        ∀ e', e' ∈ s'.timeoutSet.timeoutSet ↔ e' ∈ s.timeoutSet.timeoutSet ∧ e' ≠ e) ∧
    ∀ call sys s', s.step (.io call sys) = .next s' → s'.running = s.running →
      s'.timeoutSet = s.timeoutSet := by
  have hinv : Inv s := reach_inv (reach_of_exec h)
  have hmade := madeBy_of_mem h
  refine ⟨hinv.entriesMatch, hmade, ?_, fun _ _ _ => timeoutSet_of_returned hinv⟩
  intro call reg retry s' hin hms hs
  obtain ⟨e, he, hmap, hid, hdel⟩ := wake_deletes hinv hin hms hs
  obtain ⟨call', reg', hin', -, hby⟩ := hmade e he
  rw [hid] at hin'
  cases hin.unique hin'
  exact ⟨e, he, hmap, hby, hdel⟩

/-- Of the two coroutines of `expiredActs`, both suspended at first, one has a timeout. -/
theorem timeout_entries_expired :
    EntriesMatch (St.after [5, 6] (expiredActs.take 4)) ∧
    (St.after [5, 6] (expiredActs.take 4)).timeoutSet.timeoutSet.toList =
      [⟨1, noData.now.addMillisecond 1000⟩] ∧
    ∃ e ∈ (St.after [5, 6] expiredActs).timeoutSet.timeoutSet,
      MadeBy (St.initWith [5, 6]) expiredActs ⟨.read, 6, 1000, 1⟩ 1 e := by
  have hrun : exec St.step (St.initWith [5, 6]) expiredActs = _ := exec_after (by decide)
  have hin : (St.after [5, 6] expiredActs).InCall (St.after [5, 6] expiredActs).running
      (.io ⟨.read, 6, 1000, 1⟩ 1) :=
    ⟨⟨1, .COROUTINE_RUNNING, some (.io ⟨.read, 6, 1000, 1⟩ 1)⟩, by decide, rfl⟩
  refine ⟨(timeout_entries (exec_after (by decide))).1 (by decide), by decide, ?_⟩
  obtain ⟨e, he, -, hmade, -⟩ := (timeout_entries hrun).2.2.1 _ _ (.err .EAGAIN) _ hin (by decide)
    (step_after (by decide) (by decide))
  exact ⟨e, he, hmade⟩

/-! ## The loop of `RunTimeoutCo` -/

/-- The entries that `GetExpired` considers expired at `now`, in the order of the set. -/
def TimeoutSet.expired (t : TimeoutSet) (now : Timestamp) : List CoIdTimeout :=
  t.timeoutSet.toList.filter fun e => !e.timestamp.greater now

theorem TimeoutSet.mem_expired_iff {t : TimeoutSet} {now : Timestamp} {e : CoIdTimeout} :
    e ∈ t.expired now ↔ e ∈ t.timeoutSet ∧ ¬ e.timestamp.greater now = true := by
  simp [expired]

theorem CoIdTimeout.less_of_cmp {a b : CoIdTimeout} (h : cmp a b = .lt) : a.less b = true := by
  unfold cmp at h
  split at h
  · assumption
  · split at h <;> cases h

theorem TimeoutSet.pairwise_expired (t : TimeoutSet) (now : Timestamp) :
    (t.expired now).Pairwise fun a b => a.less b = true :=
  (t.timeoutSet.ordered_toList.imp CoIdTimeout.less_of_cmp).filter _

theorem CoIdTimeout.not_less_self (a : CoIdTimeout) : ¬ a.less a = true := by
  rw [less_iff]
  omega

instance : Std.Irrefl fun a b : CoIdTimeout => a.less b = true := ⟨CoIdTimeout.not_less_self⟩

instance : Std.Antisymm fun a b : CoIdTimeout => a.less b = true where
  antisymm a b hab hba := by
    rw [CoIdTimeout.less_iff] at hab hba
    omega

theorem TimeoutSet.Wf.nodup_expired {t : TimeoutSet} (hw : t.Wf) (now : Timestamp) :
    ((t.expired now).map (·.coId)).Nodup := by
  refine List.Nodup.map_on ?_ (t.pairwise_expired now).nodup
  intro e he e' he' hk
  exact hw.unique (mem_expired_iff.mp he).1 (mem_expired_iff.mp he').1 hk

/-- What is left for the loop: the expired entries but that of the coroutine it has resumed. -/
def St.remaining (s : St) (now : Timestamp) : List CoIdTimeout :=
  (s.timeoutSet.expired now).filter fun e => e.coId ≠ s.running

theorem St.mem_remaining_iff {s : St} {now : Timestamp} {e : CoIdTimeout} :
    e ∈ s.remaining now ↔
      e ∈ s.timeoutSet.timeoutSet ∧ ¬ e.timestamp.greater now = true ∧ e.coId ≠ s.running := by
  simp only [remaining, List.mem_filter, TimeoutSet.mem_expired_iff, decide_eq_true_eq, and_assoc]

theorem St.remaining_ext {s s' : St} {now : Timestamp}
    (h : ∀ e, e ∈ s.remaining now ↔ e ∈ s'.remaining now) : s.remaining now = s'.remaining now :=
  ((s.timeoutSet.pairwise_expired now).filter _).eq_of_mem_iff
    ((s'.timeoutSet.pairwise_expired now).filter _) h

theorem addMillisecond_greater {t now : Timestamp} {timeoutMs : Int} (hclock : ¬ t.less now = true)
    (hms : 0 < timeoutMs) : (t.addMillisecond timeoutMs).greater now = true := by
  have hdiv := Int.tmod_add_mul_tdiv timeoutMs 1000
  have hquot := Int.tdiv_nonneg hms.le (show (0 : Int) ≤ 1000 by decide)
  have hrem := Int.tmod_nonneg 1000 hms.le
  rw [Timestamp.less_iff] at hclock
  rw [Timestamp.greater_iff]
  simp only [Timestamp.addMillisecond]
  omega

/-- The clock readings of the step are not before `now`. -/
def Act.notBefore (now : Timestamp) : Act → Prop
  | .io _ sys => ¬ sys.now.less now = true
  | _ => True

theorem Inv.entry_nonneg {s : St} (h : Inv s) {e : CoIdTimeout}
    (he : e ∈ s.timeoutSet.timeoutSet) : 0 ≤ e.coId := by
  obtain ⟨call, reg, hin, -⟩ := h.timers.entry e he
  exact h.table.inCall_nonneg hin

theorem Inv.remaining_of_idle {s : St} (h : Inv s) (hidle : s.running = -1) (now : Timestamp) :
    s.remaining now = s.timeoutSet.expired now := by
  unfold St.remaining
  rw [List.filter_eq_self]
  intro e he
  have hpos := h.entry_nonneg (TimeoutSet.mem_expired_iff.mp he).1
  simp only [decide_eq_true_eq]
  omega

/-- A coroutine in its own code has no entry, so its end or its wait for something else leaves what
there is to do. -/
theorem remaining_of_yield {s s' : St} (h : Inv s) (hu : s.inUser = true)
    (ht : s'.timeoutSet = s.timeoutSet) (hr : s'.running = -1) (now : Timestamp) :
    s'.remaining now = s.remaining now := by
  refine St.remaining_ext fun e => ?_
  rw [St.mem_remaining_iff, St.mem_remaining_iff, ht, hr]
  refine and_congr_right fun he => and_congr_right fun _ => ?_
  have hpos := h.entry_nonneg he
  have hne := h.timers.fresh (not_inCall_of_inUser hu) e he
  exact iff_of_true (by omega) hne

/-- No step of a resumed coroutine changes what is left for the loop: it takes back its own entry,
and an entry it makes is later than `now`. -/
theorem remaining_of_running {s s' : St} {a : Act} {now : Timestamp} (h : Inv s)
    (hr : s.running ≠ -1) (ha : a.notBefore now) (hm : Move s a s') :
    s'.remaining now = s.remaining now ∧ s'.pc = s.pc := by
  cases hm with
  | ioReturn => exact ⟨rfl, rfl⟩
  | ioReject hu =>
    refine ⟨St.remaining_ext fun e => ?_, rfl⟩
    rw [St.mem_remaining_iff, St.mem_remaining_iff,
      TimeoutSet.unguarded_guarded h.timers.wf (h.timers.fresh (not_inCall_of_inUser hu))]
  | @ioWait call sys kernel c hu =>
    have hf := h.timers.fresh (not_inCall_of_inUser hu)
    refine ⟨St.remaining_ext fun e => ?_, rfl⟩
    rw [St.mem_remaining_iff, St.mem_remaining_iff, TimeoutSet.mem_guarded_iff hf]
    constructor
    · rintro ⟨⟨hms, rfl⟩ | he, hgt, -⟩
      · exact absurd (addMillisecond_greater ha hms) hgt
      · exact ⟨he, hgt, hf e he⟩
    · rintro ⟨he, hgt, -⟩
      have hpos := h.entry_nonneg he
      exact ⟨.inr he, hgt, show e.coId ≠ -1 by omega⟩
  | wakeCondition => exact ⟨rfl, rfl⟩
  | wakeIo =>
    refine ⟨St.remaining_ext fun e => ?_, rfl⟩
    rw [St.mem_remaining_iff, St.mem_remaining_iff, TimeoutSet.mem_unguarded_iff h.timers.wf]
    constructor
    · rintro ⟨⟨he, -⟩, hrest⟩
      exact ⟨he, hrest⟩
    · rintro ⟨he, hgt, hne⟩
      exact ⟨⟨he, fun _ => hne⟩, hgt, hne⟩
  | conditionWait hu =>
    refine ⟨remaining_of_yield h hu ?_ ?_ now, rfl⟩
    · rfl
    · rfl
  | conditionNotify => exact ⟨rfl, rfl⟩
  | getCondition => exact ⟨rfl, rfl⟩
  | newCoroutine => exact ⟨rfl, rfl⟩
  | finish hu =>
    refine ⟨remaining_of_yield h hu ?_ ?_ now, rfl⟩
    · rfl
    · rfl
  | openFd => exact ⟨rfl, rfl⟩
  | closeFd => exact ⟨rfl, rfl⟩
  | spawn hm | run hm => exact absurd (idle_of_inMain hm).1 hr
  | advance hidle | start hidle | resume hidle | resumeDead hidle => exact absurd hidle hr

theorem TimeoutSet.getExpired_eq (t : TimeoutSet) (now : Timestamp) :
    t.getExpired now = ((t.expired now).head?.map (·.coId)).getD (-1) := by
  cases hl : t.timeoutSet.toList with
  | nil => simp [getExpired, first, expired, hl]
  | cons e tl =>
    have hpair := t.timeoutSet.ordered_toList.imp CoIdTimeout.less_of_cmp
    rw [hl, List.pairwise_cons] at hpair
    cases hgt : e.timestamp.greater now with
    | false => simp [getExpired, first, expired, hl, hgt]
    | true =>
      -- the order of the set puts every other entry behind the first one
      have hnone : t.expired now = [] := by
        rw [expired, hl, List.filter_eq_nil_iff]
        rintro e' (_ | ⟨_, he'⟩)
        · simp [hgt]
        · have hlt := hpair.1 e' he'
          rw [CoIdTimeout.less_iff] at hlt
          rw [Timestamp.greater_iff] at hgt
          have hgt' : e'.timestamp.greater now = true := by
            rw [Timestamp.greater_iff]
            omega
          simp [hgt']
      simp [getExpired, first, hl, hgt, hnone]

/-- Where the loop stands, a step resumes the entry that `GetExpired` reports, or ends the loop. -/
theorem loop_move {s s' : St} {a : Act} {now : Timestamp} (h : Inv s) (hidle : s.running = -1)
    (hpc : s.pc = .timeout now) (hm : Move s a s') :
    ∃ env, a = .sched env ∧
      (s.timeoutSet.getExpired now = -1 ∧
          s' = { s with handlingTimeout := false, pc := .newCoFunc 0 } ∨
        s.timeoutSet.getExpired now ≠ -1 ∧ s'.running = s.timeoutSet.getExpired now ∧
          s'.timeoutSet = s.timeoutSet ∧ s'.pc = .timeout now) := by
  cases hm with
  | ioReturn hu | ioReject hu | ioWait hu | conditionWait hu | newCoroutine hu | finish hu =>
    exact absurd hidle (running_of_inUser hu)
  | wakeCondition hr | wakeIo hr => exact absurd hidle hr
  | conditionNotify hu | getCondition hu | openFd hu | closeFd hu =>
    rcases (Bool.or_eq_true _ _).mp hu with hu | hm
    · exact absurd hidle (running_of_inUser hu)
    · rw [(idle_of_inMain hm).2] at hpc
      cases hpc
  | spawn hm | run hm =>
    rw [(idle_of_inMain hm).2] at hpc
    cases hpc
  | advance hr ha =>
    cases ha with
    | timeoutEnd hpc' hid =>
      cases hpc.symm.trans hpc'
      exact ⟨_, rfl, .inl ⟨hid, rfl⟩⟩
    | newCoFunc hpc' | waitResume hpc' | poll hpc' | batchEnd hpc' | batchSkip hpc'
    | eventOut hpc' | eventEnd hpc' => cases hpc.symm.trans hpc'
  | start hr hpc' => cases hpc.symm.trans hpc'
  | resume hr ht =>
    cases ht with
    | timeout hpc' hid =>
      cases hpc.symm.trans hpc'
      exact ⟨_, rfl, .inr ⟨hid, rfl, rfl, rfl⟩⟩
    | notified hpc' | read hpc' | write hpc' => cases hpc.symm.trans hpc'
  | resumeDead hr ht hc =>
    obtain ⟨w, c, hc', -⟩ := ht.inCall h.slots h.timers h.conditions
    rw [hc] at hc'
    cases hc'

/-- One round of the loop: it resumes the first of what is left, and ends when nothing is. -/
theorem loop_step {s s' : St} {a : Act} {now : Timestamp} (h : Inv s) (hidle : s.running = -1)
    (hpc : s.pc = .timeout now) (hs : s.step a = .next s') :
    (s.remaining now = [] ∧ s.resumes a = none ∧
      s' = { s with handlingTimeout := false, pc := .newCoFunc 0 }) ∨
    ∃ e, s.remaining now = e :: s'.remaining now ∧ s'.pc = .timeout now ∧
      s.resumes a = some (e.coId, .timeout now) := by
  have hrem := h.remaining_of_idle hidle now
  have hexp := s.timeoutSet.getExpired_eq now
  obtain ⟨env, rfl, ⟨hnone, rfl⟩ | ⟨hne, hr, ht, hpc'⟩⟩ := loop_move h hidle hpc (St.step_move hs)
  · refine .inl ⟨?_, by simp [St.resumes, hidle, St.loopCode, hpc, hnone], rfl⟩
    rw [hrem]
    cases hl : s.timeoutSet.expired now with
    | nil => rfl
    | cons e tl =>
      -- an id of an entry is not the -1 of `GetExpired`
      have he : e ∈ s.timeoutSet.expired now := by rw [hl]; exact List.mem_cons_self
      have hpos := h.entry_nonneg (TimeoutSet.mem_expired_iff.mp he).1
      rw [hl, hnone] at hexp
      simp only [List.head?_cons, Option.map_some, Option.getD_some] at hexp
      omega
  · cases hl : s.timeoutSet.expired now with
    | nil =>
      rw [hl] at hexp
      exact absurd hexp hne
    | cons e tl =>
      have hid : s.timeoutSet.getExpired now = e.coId := by rw [hexp, hl]; rfl
      refine .inr ⟨e, ?_, hpc', by rw [← hid]; exact St.resumes_timeout hidle hpc hne env⟩
      -- the entries behind the first one are those of other coroutines
      have hnd := h.timers.wf.nodup_expired now
      rw [hl, List.map_cons, List.nodup_cons] at hnd
      have htl : tl.filter (fun e' => e'.coId ≠ e.coId) = tl := by
        rw [List.filter_eq_self]
        intro e' he'
        simp only [decide_eq_true_eq]
        intro hk
        exact hnd.1 (hk ▸ List.mem_map_of_mem he')
      rw [hrem, St.remaining, ht, hr, hid, hl, List.filter_cons_of_neg (by simp), htl]

/-- The loop itself is never stuck: what it resumes is suspended. -/
theorem loop_enabled {s : St} {now : Timestamp} (h : Inv s) (hidle : s.running = -1)
    (hpc : s.pc = .timeout now) (env : Env) : ∃ s', s.step (.sched env) = .next s' := by
  by_cases hnone : s.timeoutSet.getExpired now = -1
  · simp only [St.step, hidle, if_true, St.loopCode, hpc, hnone]
    exact ⟨_, rfl⟩
  · obtain ⟨call, reg, ⟨c, hc, hst, -⟩, -⟩ := h.target_matches hidle (.timeout hpc hnone)
    have hpos := (h.table.live _ c hc).1
    simp only [St.step, hidle, if_true, St.loopCode, hpc, hnone, if_false, St.coroutineResume, hc,
      hst]
    rw [if_neg (by omega)]
    exact ⟨_, rfl⟩

/-- The states and the steps of a run, of which those up to `n` are in the loop at `now`. -/
def InLoop (now : Timestamp) (tr : Nat → St) (n : Nat) : Prop := ∀ k ≤ n, (tr k).pc = .timeout now

/-- A run from a state in which `RunTimeoutCo` asks `GetExpired`, for as long as it is in the loop:
the clock does not go back, and whenever a coroutine runs, it gets to a yield or to its end. -/
structure TimeoutRun (now : Timestamp) (tr : Nat → St) (acts : Nat → Act) : Prop where
  reachable : Reachable (tr 0)
  idle : (tr 0).running = -1
  pc : (tr 0).pc = .timeout now
  step : ∀ n, InLoop now tr n → (tr n).step (acts n) = .next (tr (n + 1))
  clock : ∀ n, InLoop now tr n → (acts n).notBefore now
  back : ∀ n, InLoop now tr n → ∃ m, n ≤ m ∧ (tr m).running = -1

/-- The resumptions of the first `n` steps. -/
def resumed (tr : Nat → St) (acts : Nat → Act) (n : Nat) : List (Int × Why) :=
  (List.range n).filterMap fun k => (tr k).resumes (acts k)

theorem resumed_succ (tr : Nat → St) (acts : Nat → Act) (n : Nat) :
    resumed tr acts (n + 1) = resumed tr acts n ++ ((tr n).resumes (acts n)).toList := by
  simp only [resumed, List.range_succ, List.filterMap_append, List.filterMap_cons,
    List.filterMap_nil]
  cases (tr n).resumes (acts n) <;> rfl

theorem InLoop.pred {now : Timestamp} {tr : Nat → St} {n : Nat} (h : InLoop now tr (n + 1)) :
    InLoop now tr n := fun k hk => h k (by omega)

theorem InLoop.succ {now : Timestamp} {tr : Nat → St} {n : Nat} (h : InLoop now tr n)
    (hpc : (tr (n + 1)).pc = .timeout now) : InLoop now tr (n + 1) := by
  intro k hk
  rcases Nat.lt_or_eq_of_le hk with hlt | rfl
  · exact h k (by omega)
  · exact hpc

namespace TimeoutRun

variable {now : Timestamp} {tr : Nat → St} {acts : Nat → Act}

theorem inv (h : TimeoutRun now tr acts) : ∀ {n : Nat}, InLoop now tr n → Inv (tr n) := by
  intro n
  induction n with
  | zero => exact fun _ => h.reachable.inv
  | succ n ih => exact fun hl => inv_move (ih hl.pred) (St.step_move (h.step n hl.pred))

theorem running_step (h : TimeoutRun now tr acts) {n : Nat} (hl : InLoop now tr n)
    (hr : (tr n).running ≠ -1) :
    InLoop now tr (n + 1) ∧ (tr (n + 1)).remaining now = (tr n).remaining now ∧
      (tr n).resumes (acts n) = none := by
  obtain ⟨hrem, hpc⟩ := remaining_of_running (h.inv hl) hr (h.clock n hl)
    (St.step_move (h.step n hl))
  refine ⟨hl.succ (hpc.trans (hl n le_rfl)), hrem, ?_⟩
  cases hres : (tr n).resumes (acts n) with
  | none => rfl
  | some r => exact absurd (St.resumes_some hres).1 hr

theorem resumed_append (h : TimeoutRun now tr acts) {n : Nat} (hl : InLoop now tr n) :
    resumed tr acts n ++ ((tr n).remaining now).map (fun e => (e.coId, Why.timeout now)) =
      ((tr 0).timeoutSet.expired now).map (fun e => (e.coId, Why.timeout now)) := by
  induction n with
  | zero =>
    rw [(h.inv hl).remaining_of_idle h.idle]
    rfl
  | succ n ih =>
    rw [← ih hl.pred, resumed_succ, List.append_assoc]
    congr 1
    by_cases hr : (tr n).running = -1
    · rcases loop_step (h.inv hl.pred) hr (hl n (Nat.le_succ n)) (h.step n hl.pred) with
        ⟨-, -, hend⟩ | ⟨e, hrem, -, hres⟩
      · -- the end of the loop is not in it
        have hpc := hl (n + 1) le_rfl
        rw [hend] at hpc
        cases hpc
      · rw [hrem, hres]
        rfl
    · obtain ⟨-, hrem, hres⟩ := h.running_step hl.pred hr
      rw [hrem, hres]
      rfl

/-- The coroutine that runs comes back to the loop and leaves it with the same work. -/
theorem back_to_loop (h : TimeoutRun now tr acts) {d : Nat} :
    ∀ {n : Nat}, InLoop now tr n → (tr (n + d)).running = -1 →
      ∃ m, InLoop now tr m ∧ (tr m).running = -1 ∧
        (tr m).remaining now = (tr n).remaining now := by
  induction d with
  | zero => exact fun hl hidle => ⟨_, hl, hidle, rfl⟩
  | succ d ih =>
    intro n hl hidle
    by_cases hr : (tr n).running = -1
    · exact ⟨n, hl, hr, rfl⟩
    · obtain ⟨hl', hrem, -⟩ := h.running_step hl hr
      obtain ⟨m, hlm, hm, heq⟩ := ih hl' (by rwa [Nat.add_right_comm, Nat.add_assoc])
      exact ⟨m, hlm, hm, heq.trans hrem⟩

/-- The loop gets to the point where nothing is left, by induction on how much that is. -/
theorem exists_done (h : TimeoutRun now tr acts) {k : Nat} :
    ∀ {n : Nat}, InLoop now tr n → (tr n).running = -1 → ((tr n).remaining now).length = k →
      ∃ m, InLoop now tr m ∧ (tr m).running = -1 ∧ (tr m).remaining now = [] := by
  induction k with
  | zero =>
    intro n hl hidle hk
    exact ⟨n, hl, hidle, List.length_eq_zero_iff.mp hk⟩
  | succ k ih =>
    intro n hl hidle hk
    rcases loop_step (h.inv hl) hidle (hl n le_rfl) (h.step n hl) with
      ⟨hnil, -⟩ | ⟨e, hrem, hpc, -⟩
    · exact ⟨n, hl, hidle, hnil⟩
    · have hl' := hl.succ hpc
      obtain ⟨m', hle, hm'⟩ := h.back (n + 1) hl'
      obtain ⟨m, hlm, hm, heq⟩ := h.back_to_loop hl' (by rwa [Nat.add_sub_cancel' hle])
      refine ih hlm hm ?_
      rw [heq]
      rw [hrem, List.length_cons] at hk
      omega

end TimeoutRun

/-- **`RunTimeoutCo` ends.** In every reachable state the loop can go on where it stands. When the
clock does not go back and every coroutine it resumes comes to a yield or to its end, the loop
leaves for the next round after finitely many steps; until then it has resumed the coroutines with
an expired entry once each, in the order of the entries, and nobody else, and it leaves no expired
entry. -/
theorem runTimeoutCo_ends (now : Timestamp) :
    (∀ s, Reachable s → s.running = -1 → s.pc = .timeout now →
      ∀ env, ∃ s', s.step (.sched env) = .next s') ∧
    ∀ tr acts, TimeoutRun now tr acts →
      ∃ m, InLoop now tr m ∧ (tr (m + 1)).pc = .newCoFunc 0 ∧ (tr (m + 1)).running = -1 ∧
        resumed tr acts (m + 1) =
          ((tr 0).timeoutSet.expired now).map (fun e => (e.coId, Why.timeout now)) ∧
        ((tr 0).timeoutSet.expired now).Pairwise (fun a b => a.less b = true) ∧
        (((tr 0).timeoutSet.expired now).map (·.coId)).Nodup ∧
        ∀ e ∈ (tr (m + 1)).timeoutSet.timeoutSet, e.timestamp.greater now = true := by
  refine ⟨fun s hs => loop_enabled hs.inv, fun tr acts h => ?_⟩
  have hl₀ : InLoop now tr 0 := fun k hk => by rw [Nat.le_zero.mp hk]; exact h.pc
  obtain ⟨m, hl, hidle, hnil⟩ := h.exists_done hl₀ h.idle rfl
  have hexp := (h.inv hl).remaining_of_idle hidle now
  rcases loop_step (h.inv hl) hidle (hl m le_rfl) (h.step m hl) with
    ⟨-, hres, hend⟩ | ⟨e, hrem, -⟩
  · refine ⟨m, hl, by rw [hend], by rw [hend]; exact hidle, ?_,
      TimeoutSet.pairwise_expired _ _, ?_, fun e he => ?_⟩
    · rw [← h.resumed_append hl, resumed_succ, hres, hnil]
      rfl
    · exact (h.inv hl₀).timers.wf.nodup_expired now
    · rw [hend] at he
      by_contra hgt
      have hmem : e ∈ (tr m).timeoutSet.expired now := TimeoutSet.mem_expired_iff.mpr ⟨he, hgt⟩
      rw [← hexp, hnil] at hmem
      cases hmem
  · rw [hnil] at hrem
    cases hrem

/-- Told of its timeout, coroutine 1 of `expiredActs` reads again with another one, in the loop. -/
def rearmActs : List Act :=
  [.sched {}, .wake (.err .EAGAIN),
    .io ⟨.read, 6, 1000, 1⟩ ⟨⟨1700000003, 0⟩, .err .EAGAIN, .err .EAGAIN⟩, .sched {}]

def rearmState (n : Nat) : St := St.after [5, 6] (expiredActs.take 9 ++ rearmActs.take n)

theorem runTimeoutCo_ends_rearm :
    TimeoutRun ⟨1700000002, 0⟩ rearmState (rearmActs.getD · .run) ∧
    ∃ m, (rearmState (m + 1)).pc = .newCoFunc 0 ∧
      resumed rearmState (rearmActs.getD · .run) (m + 1) = [(1, .timeout ⟨1700000002, 0⟩)] := by
  have hlt : ∀ n, InLoop ⟨1700000002, 0⟩ rearmState n → n < 4 := by
    intro n hl
    by_contra hn
    have hpc := hl 4 (by omega)
    revert hpc
    decide
  have hrun : TimeoutRun ⟨1700000002, 0⟩ rearmState (rearmActs.getD · .run) := by
    refine ⟨reachable_after (by decide), by decide, by decide, fun n hl => ?_, fun n hl => ?_,
      fun n hl => ?_⟩
    · have hn := hlt n hl
      interval_cases n
      · exact step_after (by decide) (by decide)
      · exact step_after (by decide) (by decide)
      · exact step_after (by decide) (by decide)
      · exact step_after (by decide) (by decide)
    · have hn := hlt n hl
      interval_cases n
      · trivial
      · trivial
      · exact show ¬ Timestamp.less ⟨1700000003, 0⟩ ⟨1700000002, 0⟩ = true by decide
      · trivial
    · exact ⟨4, (hlt n hl).le, by decide⟩
  obtain ⟨m, -, hpc, -, hres, -⟩ := (runTimeoutCo_ends _).2 _ _ hrun
  exact ⟨hrun, m, hpc, hres.trans (by decide)⟩

end Net
end CoSocket
