import CoSocket.Net.TimedOut

/-!
# Net.Batch

The events of one `Poll` against the waits that are registered while they are handled.
`EventHandler` looks at the watcher again for each pair of the batch, and again between its two
halves. So an event reported for one wait resumes whoever is registered by then, be it a wait that
a coroutine resumed a moment ago has just registered, on a new socket with the same number.

`covers` says which descriptors and directions the rest of the batch still wakes.
`event_wakes_registered` is about the runs in which no wait is registered on one of those: there an
event resumes only coroutines that were suspended in the same wait when `epoll_wait` returned.
-/

namespace CoSocket
namespace Net

open Base Lts

/-! ## The rest of the batch -/

/-- Some pair of the list wakes direction `d` of `fd`. -/
def coversPair (rest : List (Int × UInt32)) (fd : Int) (d : Dir) : Bool :=
  rest.any fun p => p.1 = fd && wakes p.2 d

namespace Pc

/-- What is left of the batch wakes direction `d` of `fd`. -/
def covers : Pc → Int → Dir → Bool
  | .batch _ rest, fd, d => coversPair rest fd d
  | .eventOut _ fd' events rest, fd, d =>
    (fd' = fd && d = .write && wakes events .write) || coversPair rest fd d
  | _, _, _ => false

/-- The number of waits registered when `epoll_wait` returned, inside a `Poll`. -/
def since : Pc → Option Nat
  | .batch since _ => some since
  | .eventOut since _ _ _ => some since
  | _ => none

end Pc

/-- The step registers no wait on a descriptor and direction that the rest of the batch wakes. -/
def St.waitsUncovered (s : St) : Act → Bool
  | .io call sys => !(s.suspends call sys && s.pc.covers call.fd call.kind.dir)
  | _ => true

/-- Waits are numbered below `registrations`, and so is the beginning of a `Poll`. -/
structure Numbered (s : St) : Prop where
  wait : ∀ id call reg, s.InCall id (.io call reg) → reg < s.registrations
  since : ∀ since, s.pc.since = some since → since ≤ s.registrations

/-- Inside a `Poll` the rest of the batch wakes no wait registered since `epoll_wait` returned. -/
def Uncovered (s : St) : Prop :=
  ∀ since, s.pc.since = some since → ∀ id call reg, s.InCall id (.io call reg) → since ≤ reg →
    s.pc.covers call.fd call.kind.dir = false

/-- Where the main loop goes on after a step: in a `Poll` that has just begun, in the same one with
fewer events left, or outside. -/
inductive PollStep (s : St) (a : Act) (s' : St) : Prop where
  | enter (env : Env) (ha : a = .sched env) (hpc : s.pc = .poll)
      (hs : s'.pc.since = some s.registrations) (hreg : s'.registrations = s.registrations)
  | inside (hs : s'.pc.since = s.pc.since)
      (hc : ∀ fd d, s'.pc.covers fd d = true → s.pc.covers fd d = true)
  | leave (hs : s'.pc.since = none)

theorem Pc.covers_skip {since : Nat} {fd fd' : Int} {events : UInt32} {d : Dir}
    {rest : List (Int × UInt32)} (h : (Pc.batch since rest).covers fd d = true) :
    (Pc.batch since ((fd', events) :: rest)).covers fd d = true := by
  simp only [covers, coversPair, List.any_cons, Bool.or_eq_true] at h ⊢
  exact .inr h

theorem Pc.covers_eventOut {since : Nat} {fd fd' : Int} {events : UInt32} {d : Dir}
    {rest : List (Int × UInt32)} (h : (Pc.eventOut since fd' events rest).covers fd d = true) :
    (Pc.batch since ((fd', events) :: rest)).covers fd d = true := by
  simp only [covers, coversPair, List.any_cons, Bool.or_eq_true, Bool.and_eq_true,
    decide_eq_true_eq] at h ⊢
  rcases h with ⟨⟨hfd, rfl⟩, hw⟩ | h
  · exact .inl ⟨hfd, hw⟩
  · exact .inr h

theorem Pc.covers_eventEnd {since : Nat} {fd fd' : Int} {events : UInt32} {d : Dir}
    {rest : List (Int × UInt32)} (h : (Pc.batch since rest).covers fd d = true) :
    (Pc.eventOut since fd' events rest).covers fd d = true := by
  simp only [covers, Bool.or_eq_true] at h ⊢
  exact .inr h

theorem pollStep_advance {s s' : St} {env : Env} (h : Advance s env s') :
    PollStep s (.sched env) s' := by
  cases h with
  | poll hpc => exact .enter env rfl hpc rfl rfl
  | batchSkip hpc => exact .inside (by rw [hpc]; rfl) fun _ _ hc => hpc ▸ Pc.covers_skip hc
  | eventOut hpc => exact .inside (by rw [hpc]; rfl) fun _ _ hc => hpc ▸ Pc.covers_eventOut hc
  | eventEnd hpc => exact .inside (by rw [hpc]; rfl) fun _ _ hc => hpc ▸ Pc.covers_eventEnd hc
  | newCoFunc | waitResume | batchEnd | timeoutEnd => exact .leave rfl

theorem pollStep_target {s s' : St} {a : Act} {pc' : Pc} {id : Int} {why : Why}
    (h : Target s pc' id why) (hpc' : s'.pc = pc') : PollStep s a s' := by
  cases h with
  | read hpc =>
    refine .inside (by rw [hpc, hpc']; rfl) fun fd d hc => ?_
    rw [hpc'] at hc
    exact hpc ▸ Pc.covers_eventOut hc
  | write hpc =>
    refine .inside (by rw [hpc, hpc']; rfl) fun fd d hc => ?_
    rw [hpc'] at hc
    exact hpc ▸ Pc.covers_eventEnd hc
  | notified | timeout => exact .leave (by rw [hpc']; rfl)

theorem pollStep_move {s s' : St} {a : Act} (hm : Move s a s') : PollStep s a s' := by
  cases hm with
  | advance hr ha => exact pollStep_advance ha
  | resume hr ht => exact pollStep_target ht rfl
  | resumeDead hr ht => exact pollStep_target ht rfl
  | run | start => exact .leave rfl
  | _ => exact .inside rfl fun _ _ hc => hc

theorem registrations_le {s s' : St} {a : Act} (hm : Move s a s') :
    s.registrations ≤ s'.registrations := by
  cases hm with
  | ioWait => exact Nat.le_succ _
  | advance hr ha => cases ha <;> exact Nat.le_refl _
  | _ => exact Nat.le_refl _

theorem numbered_move {s s' : St} {a : Act} (h : Numbered s) (hm : Move s a s') :
    Numbered s' := by
  have hle := registrations_le hm
  constructor
  · intro id call reg hin
    rcases inCall_before hm hin with hin | ⟨sys, rfl, -, rfl, -, hnew⟩
    · have := h.wait id call reg hin
      omega
    · omega
  · intro since hs
    cases pollStep_move hm with
    | enter env ha hpc hs' hreg =>
      rw [hs] at hs'
      cases hs'
      exact hle
    | inside hs' =>
      have := h.since since (hs' ▸ hs)
      omega
    | leave hs' =>
      rw [hs] at hs'
      cases hs'

theorem reach_numbered {P : St → Act → Prop} {isOpen : Std.ExtTreeSet Int} {s : St}
    (h : Reach St.step P (St.init isOpen) s) : Numbered s :=
  h.invariant ⟨fun id _ _ hin => absurd hin (not_inCall_init id _), fun _ hs => by cases hs⟩
    fun _ _ _ _ hi _ hs => numbered_move hi (St.step_move hs)

theorem uncovered_move {s s' : St} {a : Act} (h : Uncovered s) (hn : Numbered s')
    (hw : s.waitsUncovered a = true) (hm : Move s a s') : Uncovered s' := by
  intro since hs id call reg hin hreg
  cases pollStep_move hm with
  | enter env ha hpc hs' heq =>
    -- every wait is older than a `Poll` that has just begun
    rw [hs] at hs'
    cases hs'
    have := hn.wait id call reg hin
    omega
  | inside hs' hc =>
    rw [Bool.eq_false_iff]
    intro hcov
    rcases inCall_before hm hin with hin | ⟨sys, rfl, -, -, hsus, -⟩
    · exact Bool.eq_false_iff.mp (h since (hs' ▸ hs) id call reg hin hreg) (hc _ _ hcov)
    · simp [St.waitsUncovered, hsus, hc _ _ hcov] at hw
  | leave hs' =>
    rw [hs] at hs'
    cases hs'

theorem reach_uncovered {isOpen : Std.ExtTreeSet Int} {s : St}
    (h : Reach St.step (fun s a => s.waitsUncovered a = true) (St.init isOpen) s) :
    Uncovered s := by
  refine h.invariant (fun _ hs => by cases hs) fun s a s' hr hi hw hs => ?_
  exact uncovered_move hi (reach_numbered (hr.tail hw hs)) hw (St.step_move hs)

/-! ## The `Poll` in progress -/

/-- `epoll_wait` returned in state `s₁`, and the run `acts` has been inside that `Poll` since. -/
def PollFrom (s₀ : St) (acts : List Act) (s₁ : St) : Prop :=
  ∃ pre env post, acts = pre ++ .sched env :: post ∧ exec St.step s₀ pre = .next s₁ ∧
    s₁.pc = .poll ∧
    ∀ mid, mid <+: post → ∀ s₂, exec St.step s₀ (pre ++ .sched env :: mid) = .next s₂ →
      s₂.pc.since = some s₁.registrations

theorem PollFrom.since {s₀ s s₁ : St} {acts : List Act} (h : PollFrom s₀ acts s₁)
    (hrun : exec St.step s₀ acts = .next s) : s.pc.since = some s₁.registrations := by
  obtain ⟨pre, env, post, rfl, -, -, hmid⟩ := h
  exact hmid post List.prefix_rfl s hrun

theorem PollFrom.suspended {isOpen : Std.ExtTreeSet Int} {s s₁ : St} {acts : List Act}
    (h : PollFrom (St.init isOpen) acts s₁) (hrun : exec St.step (St.init isOpen) acts = .next s)
    {id : Int} {w : Wait} (hin : s₁.InCall id w) : s₁.Suspended id w := by
  obtain ⟨pre, env, post, rfl, hpre, -, -⟩ := h
  obtain ⟨s₂, s₃, hpre', hs⟩ := exec_prefix hrun
    (show pre ++ [Act.sched env] <+: _ from ⟨post, by simp⟩)
  rw [hpre] at hpre'
  cases hpre'
  have hidle : s₁.running = -1 := by
    by_contra hne
    simp [St.step, hne] at hs
  exact (reach_inv (reach_of_exec hpre)).table.suspended_of_idle hidle hin

theorem PollFrom.snoc {s₀ s' s₁ : St} {acts : List Act} {a : Act} (h : PollFrom s₀ acts s₁)
    (hrun : exec St.step s₀ (acts ++ [a]) = .next s')
    (hs : s'.pc.since = some s₁.registrations) : PollFrom s₀ (acts ++ [a]) s₁ := by
  obtain ⟨pre, env, post, rfl, hpre, hpc, hmid⟩ := h
  refine ⟨pre, env, post ++ [a], by simp, hpre, hpc, fun mid hp s₂ h₂ => ?_⟩
  rcases List.prefix_concat_iff.mp hp with rfl | hp
  · rw [show pre ++ Act.sched env :: (post ++ [a]) = pre ++ Act.sched env :: post ++ [a] by simp,
      hrun] at h₂
    cases h₂
    exact hs
  · exact hmid mid hp s₂ h₂

/-- `s₁` is where `epoll_wait` returned in the `Poll` in progress, and the waits with a number below
`since` were there already. -/
def PolledAt (s₀ : St) (acts : List Act) (s : St) (since : Nat) (s₁ : St) : Prop :=
  PollFrom s₀ acts s₁ ∧
    ∀ id call reg, s.InCall id (.io call reg) → reg < since → s₁.InCall id (.io call reg)

theorem exists_pollFrom {isOpen : Std.ExtTreeSet Int} {acts : List Act} {s : St}
    (h : exec St.step (St.init isOpen) acts = .next s) :
    ∀ since, s.pc.since = some since → ∃ s₁, PolledAt (St.init isOpen) acts s since s₁ := by
  refine exec_induction (I := fun acts s => ∀ since, s.pc.since = some since →
    ∃ s₁, PolledAt (St.init isOpen) acts s since s₁) ?_ ?_ h
  · intro since hs
    cases hs
  · intro acts a s s' hpre ih hstep since hs
    have hm := St.step_move hstep
    have hrun := exec_snoc_eq_next.mpr ⟨s, hpre, hstep⟩
    cases pollStep_move hm with
    | enter env ha hpc hs' heq =>
      subst ha
      refine ⟨s, ⟨acts, env, [], rfl, hpre, hpc, fun mid hp s₂ h₂ => ?_⟩,
        fun id call reg hin _ => ?_⟩
      · rw [List.prefix_nil.mp hp, hrun] at h₂
        cases h₂
        exact hs'
      · rcases inCall_before hm hin with hin | ⟨sys, ha, -⟩
        · exact hin
        · cases ha
    | inside hs' hc =>
      obtain ⟨s₁, hfrom, hin⟩ := ih since (hs' ▸ hs)
      refine ⟨s₁, hfrom.snoc hrun (hs'.trans (hfrom.since hpre)), fun id call reg hcall hreg => ?_⟩
      rcases inCall_before hm hcall with hcall | ⟨sys, rfl, -, rfl, -, -⟩
      · exact hin id call reg hcall hreg
      · have := (reach_numbered (reach_of_exec hpre)).since since (hs' ▸ hs)
        omega
    | leave hs' => rw [hs] at hs'; cases hs'

theorem covers_of_target {s : St} {pc' : Pc} {id fd : Int} {d : Dir}
    (h : Target s pc' id (.event fd d)) :
    s.slot fd d = id ∧ s.slot fd d ≠ -1 ∧ s.pc.covers fd d = true ∧
      ∃ since, s.pc.since = some since := by
  cases h with
  | read hpc hw hne =>
    exact ⟨rfl, hne, by simp [hpc, Pc.covers, coversPair, hw], _, by rw [hpc]; rfl⟩
  | write hpc hw hne => exact ⟨rfl, hne, by simp [hpc, Pc.covers, hw], _, by rw [hpc]; rfl⟩

/-- **Events and the waits they wake.** In every run in which no wait is registered on a descriptor
and direction that the rest of the batch wakes, each coroutine that `EventHandler` resumes was
suspended in the same wait, on that descriptor and direction, when `epoll_wait` returned. -/
theorem event_wakes_registered {isOpen : Std.ExtTreeSet Int} {acts : List Act} {s : St}
    (hrun : exec St.step (St.init isOpen) acts = .next s)
    (hw : Along St.step (St.init isOpen) (fun s a => s.waitsUncovered a = true) acts)
    {a : Act} {id fd : Int} {d : Dir} (hres : s.resumes a = some (id, .event fd d)) :
    ∃ s₁ call reg, PollFrom (St.init isOpen) acts s₁ ∧ s₁.Suspended id (.io call reg) ∧
      s.Suspended id (.io call reg) ∧ call.fd = fd ∧ call.kind.dir = d := by
  have hreach := hw.reach hrun
  have hinv := reach_inv hreach
  obtain ⟨hidle, hstart | ⟨pc', ht⟩⟩ := St.resumes_some hres
  · cases hstart
  obtain ⟨rfl, hne, hcov, since, hs⟩ := covers_of_target ht
  obtain ⟨call, reg, hin, rfl, rfl⟩ := hinv.slots _ _ hne
  obtain ⟨s₁, hfrom, hold⟩ := exists_pollFrom hrun since hs
  have hreg : reg < since := by
    by_contra hge
    have := reach_uncovered hreach since hs _ call reg hin (by omega)
    rw [hcov] at this
    cases this
  exact ⟨s₁, call, reg, hfrom, hfrom.suspended hrun (hold _ _ _ hin hreg),
    hinv.table.suspended_of_idle hidle hin, rfl, rfl⟩

/-- A coroutine waits for data on descriptor 5, and `epoll_wait` reports that the peer has hung
up. -/
def hungUpActs : List Act :=
  [.newCoroutine 0 0, .io ⟨.read, 5, 0, 1⟩ noData, .run, .sched {}, .sched {},
    .sched { batch := [(5, EPOLLIN ||| EPOLLHUP)] }]

theorem event_wakes_registered_reader :
    (St.after [5] hungUpActs).resumes (.sched {}) = some (0, .event 5 .read) ∧
    ∃ s₁ call reg, PollFrom (St.initWith [5]) hungUpActs s₁ ∧ s₁.Suspended 0 (.io call reg) ∧
      (St.after [5] hungUpActs).Suspended 0 (.io call reg) ∧ call.fd = 5 ∧
      call.kind.dir = .read := by
  have hres : (St.after [5] hungUpActs).resumes (.sched {}) = some (0, .event 5 .read) := by decide
  exact ⟨hres, event_wakes_registered (exec_after (by decide))
    (along_of_checkAlong (by decide)) hres⟩

/-- The call with which it connects a new socket with the same number. -/
def reconnect : IoCall := ⟨.connect, 5, 0, 1⟩

/-- The coroutine reads the end of the stream, closes the descriptor, gets the same number for a
new socket and connects it. -/
def reconnectActs : List Act :=
  hungUpActs ++ [.sched {}, .wake (.ok 0), .closeFd 5, .openFd 5,
    .io reconnect ⟨⟨1700000000, 0⟩, .err .EINPROGRESS, .ok 0⟩]

/-- The hang-up of the old socket wakes the connect of the new one, which returns 0. -/
theorem event_wakes_later_wait :
    (exec St.step (St.initWith [5]) (reconnectActs ++ [.sched {}, .wake (.ok 0)])).isNext = true ∧
    (St.after [5] reconnectActs).resumes (.sched {}) = some (0, .event 5 .write) ∧
    (¬ ∃ s₁ call reg, PollFrom (St.initWith [5]) reconnectActs s₁ ∧
      s₁.Suspended 0 (.io call reg) ∧ (St.after [5] reconnectActs).Suspended 0 (.io call reg)) ∧
    (St.after [5] (reconnectActs ++ [.sched {}])).returned (.wake (.ok 0)) =
      some (reconnect, .ok 0) := by
  refine ⟨by decide, by decide, ?_, by decide⟩
  rintro ⟨s₁, call, reg, hfrom, h₁, c, hc, -, hw⟩
  -- the wait has number 1, and only number 0 was given out when `epoll_wait` returned
  have hwait : ((St.after [5] reconnectActs).co[(0 : Int)]?).bind (·.wait) =
      some (.io reconnect 1) := by decide
  rw [hc, Option.bind_some, hw] at hwait
  cases hwait
  have hsince : (St.after [5] reconnectActs).pc.since = some 1 := by decide
  rw [hfrom.since (exec_after (by decide))] at hsince
  obtain ⟨pre, env, post, -, hpre, -, -⟩ := hfrom
  have hlt := (reach_numbered (reach_of_exec hpre)).wait _ _ _ h₁.inCall
  have := Option.some.inj hsince
  omega

end Net
end CoSocket
