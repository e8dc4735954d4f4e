import CoSocket.Net.TimedOut

/-!
# Net.Lifetimes

Which function object a coroutine executes, and whether it still exists. `NewCoroutine` gives
`coroutine_new` the address of its own parameter, and `InterCoFunc` calls through that address; so a
coroutine runs the argument of a direct call, which lives until that call returns, or a node of
`m_coFuncList`, which lives until `RunNewCoFunc` clears the list at the end of its walk.

`Objects` keeps the objects beside a run. Both lifetimes end while a coroutine that yields is still
there: `owned_iff` says that every coroutine of a run executes an object that exists if and only if
no coroutine started before `Run` yields and none is left when the list is cleared.
-/

namespace CoSocket
namespace Net

open Base Lts

/-! ## The objects beside a run -/

/-- The function objects, numbered in the order they are made: the nodes of `m_coFuncList`, the
argument of the direct `NewCoroutine` call that has not returned, and the object whose address each
coroutine was given. -/
structure Objects where
  made : Nat := 0
  nodes : List Nat := []
  argument : Option Nat := none
  origin : Std.ExtTreeMap Int Nat := ∅

namespace Objects

/-- What `NewCoroutine` and `RunNewCoFunc` do with the objects. -/
def act (o : Objects) (s : St) : Act → Objects
  | .newCoroutine _ id =>
    if s.inUser then { o with made := o.made + 1, nodes := o.nodes ++ [o.made] }
    else
      { o with
        made := o.made + 1
        argument := some o.made
        origin := o.origin.insert id o.made }
  | .sched env =>
    match s.pc with
    | .newCoFunc it =>
      match o.nodes[it]? with
      | some node => { o with origin := o.origin.insert env.id node }
      | none => { o with nodes := [] }
    | _ => o
  | _ => o

/-- The objects after a step into `s'`. With no coroutine running, a direct call has returned. -/
def next (s : St) (a : Act) (s' : St) (o : Objects) : Objects :=
  if s'.running = -1 then { o.act s a with argument := none } else o.act s a

/-- The object still exists. -/
def Alive (o : Objects) (object : Nat) : Prop := object ∈ o.nodes ∨ o.argument = some object

/-- The objects after a run. -/
def after (s₀ : St) (acts : List Act) : Objects := track St.step next s₀ {} acts

end Objects

/-- Every coroutine that has been started and has not ended executes an object that exists. -/
def Owned (s : St) (o : Objects) : Prop :=
  ∀ (id : Int) c, s.co[id]? = some c → ∃ object, o.origin[id]? = some object ∧ o.Alive object

/-- The step takes no object away from a coroutine: it is no yield of a coroutine that was started
directly, before `Run`, and it does not clear the list while there is a coroutine. -/
def St.keepsObjects (s : St) : Act → Bool
  | .io call sys => !(s.pc = .main && s.suspends call sys)
  | .conditionWait _ => !(s.pc = .main)
  | .sched _ =>
    match s.pc with
    | .newCoFunc it => s.coFuncList[it]?.isSome || s.co.isEmpty
    | _ => true
  | _ => true

/-! ## What the objects have to do with the state -/

/-- Objects are numbered below `made`; the nodes are those of the list; and the argument of a direct
call belongs to the coroutine that call runs, to no other and to no node. -/
structure Tracked (s : St) (o : Objects) : Prop where
  parallel : o.nodes.length = s.coFuncList.length
  nodes_lt : ∀ object ∈ o.nodes, object < o.made
  origin_lt : ∀ (id : Int) object, o.origin[id]? = some object → object < o.made
  started : ∀ (id : Int) c, s.co[id]? = some c → ∃ object, o.origin[id]? = some object
  argument : ∀ object, o.argument = some object →
    object ∉ o.nodes ∧ s.running ≠ -1 ∧ s.pc = .main ∧
      ∀ (id : Int) c, s.co[id]? = some c → o.origin[id]? = some object → id = s.running
  direct : s.pc = .main → s.running ≠ -1 →
    ∃ object, o.argument = some object ∧ o.origin[s.running]? = some object

theorem tracked_init (isOpen : Std.ExtTreeSet Int) : Tracked (St.init isOpen) {} where
  parallel := rfl
  nodes_lt object h := by cases h
  origin_lt id object h := by simp at h
  started id c h := by simp [St.init] at h
  argument object h := by cases h
  direct hpc hr := absurd rfl hr

section Moves

variable {s s' : St} {o : Objects}

theorem Tracked.argument_none (h : Tracked s o) (hidle : s.running = -1 ∨ s.pc ≠ .main) :
    o.argument = none := by
  cases harg : o.argument with
  | none => rfl
  | some object =>
    obtain ⟨-, hr, hpc, -⟩ := h.argument object harg
    rcases hidle with hidle | hne
    · exact absurd hidle hr
    · exact absurd hpc hne

/-- The main context goes on, or the coroutine comes back to it. -/
theorem Tracked.idle (h : Tracked s o) (hr : s'.running = -1)
    (hl : s'.coFuncList = s.coFuncList)
    (hco : ∀ (id : Int) c, s'.co[id]? = some c → ∃ c', s.co[id]? = some c') :
    Tracked s' { o with argument := none } where
  parallel := by rw [hl]; exact h.parallel
  nodes_lt := h.nodes_lt
  origin_lt := h.origin_lt
  started id c hc := by
    obtain ⟨c', hc'⟩ := hco id c hc
    exact h.started id c' hc'
  argument object harg := by cases harg
  direct _ hne := absurd hr hne

theorem Tracked.keep (h : Tracked s o) (hr : s'.running = s.running) (hpc : s'.pc = s.pc)
    (hl : s'.coFuncList = s.coFuncList)
    (hco : ∀ (id : Int) c, s'.co[id]? = some c → ∃ c', s.co[id]? = some c') : Tracked s' o where
  parallel := by rw [hl]; exact h.parallel
  nodes_lt := h.nodes_lt
  origin_lt := h.origin_lt
  started id c hc := by
    obtain ⟨c', hc'⟩ := hco id c hc
    exact h.started id c' hc'
  argument object harg := by
    obtain ⟨hnode, hrun, hmain, hown⟩ := h.argument object harg
    rw [hr, hpc]
    refine ⟨hnode, hrun, hmain, fun id c hc => ?_⟩
    obtain ⟨c', hc'⟩ := hco id c hc
    exact hown id c' hc'
  direct hmain hne := by
    rw [hr]
    exact h.direct (hpc ▸ hmain) (hr ▸ hne)

theorem Tracked.same {a : Act} (h : Tracked s o) (hact : o.act s a = o)
    (hr : s'.running = s.running) (hpc : s'.pc = s.pc) (hl : s'.coFuncList = s.coFuncList)
    (hco : ∀ (id : Int) c, s'.co[id]? = some c → ∃ c', s.co[id]? = some c') :
    Tracked s' (Objects.next s a s' o) := by
  unfold Objects.next
  rw [hact]
  split
  · rename_i hidle
    exact h.idle hidle hl hco
  · exact h.keep hr hpc hl hco

theorem live_of_insert {k : Int} {c c' : Coroutine} (hc : s.co[k]? = some c) (id : Int)
    (c₁ : Coroutine) (h : (s.co.insert k c')[id]? = some c₁) : ∃ c₂, s.co[id]? = some c₂ := by
  rw [getElem?_insert_co] at h
  split at h
  · rename_i hk
    exact ⟨c, hk ▸ hc⟩
  · exact ⟨c₁, h⟩

theorem live_of_exit (id : Int) (c : Coroutine) (h : s.coroutineExit.co[id]? = some c) :
    s.running ≠ id ∧ s.co[id]? = some c := by
  simp only [St.coroutineExit, getElem?_erase_co] at h
  split at h
  · cases h
  · rename_i hne
    exact ⟨hne, h⟩

theorem tracked_newCoroutine (h : Tracked s o) (func : CoFunction) :
    Tracked { s with coFuncList := s.coFuncList ++ [func] }
      { o with made := o.made + 1, nodes := o.nodes ++ [o.made] } where
  parallel := by simp [h.parallel]
  nodes_lt object hmem := by
    rcases List.mem_append.mp hmem with hmem | hmem
    · exact Nat.lt_succ_of_lt (h.nodes_lt object hmem)
    · rw [List.mem_singleton.mp hmem]
      exact Nat.lt_succ_self _
  origin_lt id object horig := Nat.lt_succ_of_lt (h.origin_lt id object horig)
  started := h.started
  argument object harg := by
    obtain ⟨hnode, hrun, hmain, hown⟩ := h.argument object harg
    refine ⟨fun hmem => ?_, hrun, hmain, hown⟩
    rcases List.mem_append.mp hmem with hmem | hmem
    · exact hnode hmem
    · -- the new node is none of the objects made before
      obtain ⟨object', harg', horig⟩ := h.direct hmain hrun
      cases harg.symm.trans harg'
      have := h.origin_lt _ _ horig
      rw [List.mem_singleton.mp hmem] at this
      exact Nat.lt_irrefl _ this
  direct := h.direct

theorem origin_insert (k id : Int) (object : Nat) :
    (o.origin.insert k object)[id]? = if k = id then some object else o.origin[id]? := by
  simp [Std.ExtTreeMap.getElem?_insert]

theorem Tracked.started_new (h : Tracked s o) {k : Int} {object : Nat} (func : CoFunction)
    (id : Int) (c : Coroutine)
    (hc : ((s.co.insert k { func }).insert k { func, status := .COROUTINE_RUNNING })[id]? =
      some c) : ∃ object', (o.origin.insert k object)[id]? = some object' := by
  rw [new_co] at hc
  rw [origin_insert]
  split at hc
  · rename_i hk
    exact ⟨object, if_pos hk⟩
  · rename_i hk
    rw [if_neg hk]
    exact h.started id c hc

theorem tracked_spawn (h : Tracked s o) {k : Int} (func : CoFunction) (hm : s.inMain = true)
    (hk : 0 ≤ k) :
    Tracked
      { s with
        running := k
        co := (s.co.insert k { func }).insert k { func, status := .COROUTINE_RUNNING } }
      { o with
        made := o.made + 1
        argument := some o.made
        origin := o.origin.insert k o.made } where
  parallel := h.parallel
  nodes_lt object hmem := Nat.lt_succ_of_lt (h.nodes_lt object hmem)
  origin_lt id object horig := by
    rw [origin_insert] at horig
    split at horig
    · cases horig
      exact Nat.lt_succ_self _
    · exact Nat.lt_succ_of_lt (h.origin_lt id object horig)
  started := h.started_new func
  argument object harg := by
    cases harg
    refine ⟨fun hmem => Nat.lt_irrefl _ (h.nodes_lt _ hmem), show k ≠ -1 by omega,
      (idle_of_inMain hm).2, fun id c hc horig => ?_⟩
    rw [origin_insert] at horig
    split at horig
    · rename_i he
      exact he.symm
    · exact absurd (h.origin_lt id _ horig) (Nat.lt_irrefl _)
  direct _ _ := ⟨o.made, rfl, by rw [origin_insert, if_pos rfl]⟩

theorem tracked_start (h : Tracked s o) {k : Int} {it node : Nat} (func : CoFunction)
    (hpc : s.pc = .newCoFunc it) (hnode : node ∈ o.nodes) :
    Tracked
      { s with
        pc := .newCoFunc (it + 1)
        running := k
        co := (s.co.insert k { func }).insert k { func, status := .COROUTINE_RUNNING } }
      { o with origin := o.origin.insert k node } where
  parallel := h.parallel
  nodes_lt := h.nodes_lt
  origin_lt id object horig := by
    rw [origin_insert] at horig
    split at horig
    · cases horig
      exact h.nodes_lt node hnode
    · exact h.origin_lt id object horig
  started := h.started_new func
  argument object harg := by
    have hnone := h.argument_none (.inr (by simp [hpc]))
    rw [show o.argument = some object from harg] at hnone
    cases hnone
  direct hmain := by cases hmain

theorem tracked_clear (h : Tracked s o) (hidle : s.running = -1) :
    Tracked { s with coFuncList := [], pc := .waitResume 0 }
      { o with nodes := [], argument := none } where
  parallel := rfl
  nodes_lt object hmem := by cases hmem
  origin_lt := h.origin_lt
  started := h.started
  argument object harg := by cases harg
  direct _ hne := absurd hidle hne

theorem Tracked.act_start (h : Tracked s o) (env : Env) {it : Nat} {func : CoFunction}
    (hpc : s.pc = .newCoFunc it) (hf : s.coFuncList[it]? = some func) :
    ∃ node ∈ o.nodes, o.act s (.sched env) = { o with origin := o.origin.insert env.id node } := by
  obtain ⟨hlt, -⟩ := List.getElem?_eq_some_iff.mp hf
  rw [← h.parallel] at hlt
  refine ⟨o.nodes[it], List.getElem_mem hlt, ?_⟩
  simp only [Objects.act, hpc, List.getElem?_eq_getElem hlt]

theorem Tracked.act_clear (h : Tracked s o) {env : Env} {it : Nat} (hpc : s.pc = .newCoFunc it)
    (hend : s.coFuncList[it]? = none) : o.act s (.sched env) = { o with nodes := [] } := by
  have hnone : o.nodes[it]? = none := by
    rw [List.getElem?_eq_none_iff, h.parallel]
    exact List.getElem?_eq_none_iff.mp hend
  simp only [Objects.act, hpc, hnone]

theorem Objects.act_sched {env : Env} (hpc : ∀ it, s.pc ≠ .newCoFunc it) :
    o.act s (.sched env) = o := by
  simp only [act]

theorem tracked_resume (h : Tracked s o) {pc' : Pc} {id : Int} {why : Why} {c c' : Coroutine}
    (hidle : s.running = -1) (ht : Target s pc' id why) (hc : s.co[id]? = some c) :
    Tracked { s with pc := pc', running := id, co := s.co.insert id c' } o where
  parallel := h.parallel
  nodes_lt := h.nodes_lt
  origin_lt := h.origin_lt
  started k c₁ hk := by
    obtain ⟨c₂, hc₂⟩ := live_of_insert hc k c₁ hk
    exact h.started k c₂ hc₂
  argument object harg := by
    have hnone := h.argument_none (.inl hidle)
    rw [harg] at hnone
    cases hnone
  direct hmain := by
    subst hmain
    cases ht

theorem tracked_move {a : Act} (h : Tracked s o) (hm : Move s a s') :
    Tracked s' (Objects.next s a s' o) := by
  cases hm with
  | ioReturn | ioReject | conditionNotify | getCondition | openFd | closeFd =>
    exact h.same rfl rfl rfl rfl fun _ c hc => ⟨c, hc⟩
  | wakeCondition hr hc | wakeIo hr hc => exact h.same rfl rfl rfl rfl (live_of_insert hc)
  | ioWait hu hc | conditionWait hu hc =>
    rw [Objects.next, if_pos rfl]
    exact h.idle rfl rfl (live_of_insert hc)
  | finish hu =>
    rw [Objects.next, if_pos (show s.coroutineExit.running = -1 from rfl)]
    exact h.idle rfl rfl fun id c hc => ⟨c, (live_of_exit id c hc).2⟩
  | @newCoroutine func id hu =>
    rw [Objects.next, if_neg (running_of_inUser hu), Objects.act, if_pos hu]
    exact tracked_newCoroutine h func
  | @spawn func id hm hid =>
    have hpos := (St.freeId_iff.mp hid).1
    have hu : ¬ s.inUser = true := fun hu => running_of_inUser hu (idle_of_inMain hm).1
    rw [Objects.next, if_neg (show ¬ id = -1 by omega), Objects.act, if_neg hu]
    exact tracked_spawn h func hm hpos
  | run hm =>
    have hidle := (idle_of_inMain hm).1
    rw [Objects.next, if_pos hidle]
    exact h.idle hidle rfl fun _ c hc => ⟨c, hc⟩
  | advance hr ha =>
    cases ha with
    | newCoFunc hpc hend =>
      rw [Objects.next, if_pos hr, h.act_clear hpc hend]
      exact tracked_clear (o := o) h hr
    | waitResume hpc | poll hpc | batchEnd hpc | batchSkip hpc | eventOut hpc | eventEnd hpc
    | timeoutEnd hpc =>
      rw [Objects.next, if_pos hr, Objects.act_sched (by simp [hpc])]
      exact h.idle hr rfl fun _ c hc => ⟨c, hc⟩
  | @start env it func hr hpc hf hid =>
    have hpos := (St.freeId_iff.mp hid).1
    obtain ⟨node, hnode, hact⟩ := h.act_start env hpc hf
    rw [Objects.next, if_neg (show ¬ env.id = -1 by omega), hact]
    exact tracked_start h func hpc hnode
  | @resume env pc' id why c hr htar hid hc =>
    rw [Objects.next, if_neg (show ¬ id = -1 by omega),
      Objects.act_sched (by cases htar <;> simp [*])]
    exact tracked_resume h hr htar hc
  | resumeDead hr htar =>
    rw [Objects.next, if_pos hr, Objects.act_sched (by cases htar <;> simp [*])]
    exact h.idle hr rfl fun _ c hc => ⟨c, hc⟩

/-! ## One step -/

/-- The objects of the coroutines that are left still exist, but for the argument of a direct
call. -/
theorem Owned.idle (hown : Owned s o) (h : Tracked s o) (hidle : s.running = -1 ∨ s.pc ≠ .main)
    (hco : ∀ (id : Int) c, s'.co[id]? = some c → ∃ c', s.co[id]? = some c') :
    Owned s' { o with argument := none } := by
  intro id c hc
  obtain ⟨c', hc'⟩ := hco id c hc
  obtain ⟨object, horig, hnode | harg⟩ := hown id c' hc'
  · exact ⟨object, horig, .inl hnode⟩
  · rw [h.argument_none hidle] at harg
    cases harg

theorem Owned.same {a : Act} (hown : Owned s o) (h : Tracked s o) (hact : o.act s a = o)
    (hr : s'.running = s.running)
    (hco : ∀ (id : Int) c, s'.co[id]? = some c → ∃ c', s.co[id]? = some c') :
    Owned s' (Objects.next s a s' o) := by
  unfold Objects.next
  rw [hact]
  split
  · rename_i hidle
    exact hown.idle h (.inl (hr ▸ hidle)) hco
  · intro id c hc
    obtain ⟨c', hc'⟩ := hco id c hc
    exact hown id c' hc'

/-- A coroutine that yields keeps its object exactly when it was not started directly: with the
yield the direct call returns, and its argument is no node. -/
theorem owned_yield_iff (hown : Owned s o) (h : Tracked s o) {c c' : Coroutine}
    (hc : s.co[s.running]? = some c) (hr : s.running ≠ -1)
    (hco : s'.co = s.co.insert s.running c') :
    Owned s' { o with argument := none } ↔ ¬ s.pc = .main := by
  constructor
  · intro hown' hmain
    obtain ⟨object, harg, horig⟩ := h.direct hmain hr
    have hc' : s'.co[s.running]? = some c' := by rw [hco, getElem?_insert_co, if_pos rfl]
    obtain ⟨object', horig', halive⟩ := hown' s.running c' hc'
    cases horig.symm.trans horig'
    rcases halive with hnode | hnone
    · exact (h.argument object harg).1 hnode
    · cases hnone
  · intro hmain
    refine hown.idle h (.inr hmain) fun id c₁ hid => ?_
    rw [hco] at hid
    exact live_of_insert hc id c₁ hid

theorem owned_finish (hown : Owned s o) (h : Tracked s o) :
    Owned s.coroutineExit { o with argument := none } := by
  intro id c hc
  obtain ⟨hne, hc⟩ := live_of_exit id c hc
  obtain ⟨object, horig, hnode | harg⟩ := hown id c hc
  · exact ⟨object, horig, .inl hnode⟩
  · -- the argument of a direct call belongs to the coroutine that ends
    exact absurd ((h.argument object harg).2.2.2 id c hc horig).symm hne

/-- A coroutine that is started from an object that exists has one, and the others keep theirs. -/
theorem owned_new (hown : Owned s o) (func : CoFunction) {k : Int} {o' : Objects} {object : Nat}
    (hco : s'.co = (s.co.insert k { func }).insert k { func, status := .COROUTINE_RUNNING })
    (horig : o'.origin = o.origin.insert k object) (halive : o'.Alive object)
    (hkeep : ∀ n, o.Alive n → o'.Alive n) : Owned s' o' := by
  intro id c hc
  rw [hco, new_co] at hc
  rw [horig, origin_insert]
  split at hc
  · rename_i hk
    exact ⟨object, if_pos hk, halive⟩
  · rename_i hk
    rw [if_neg hk]
    obtain ⟨n, hn, hal⟩ := hown id c hc
    exact ⟨n, hn, hkeep n hal⟩

theorem owned_clear_iff :
    Owned { s with coFuncList := [], pc := .waitResume 0 }
      { o with nodes := [], argument := none } ↔ s.co.isEmpty = true := by
  rw [Std.ExtTreeMap.isEmpty_iff]
  constructor
  · intro hown
    apply Std.ExtTreeMap.ext_getElem?
    intro id
    cases hc : s.co[id]? with
    | none => simp
    | some c =>
      obtain ⟨object, -, hnode | harg⟩ := hown id c hc
      · cases hnode
      · cases harg
  · intro hempty id c hc
    simp only [hempty] at hc
    simp at hc

/-- From a state in which every coroutine has its object, a step leads to such a state exactly when
it takes none away. -/
theorem owned_move_iff {a : Act} (hown : Owned s o) (h : Tracked s o) (hm : Move s a s') :
    Owned s' (Objects.next s a s' o) ↔ s.keepsObjects a = true := by
  cases hm with
  | ioReturn hu hk hb =>
    refine iff_of_true (hown.same h rfl rfl fun _ c hc => ⟨c, hc⟩) ?_
    simp [St.keepsObjects, St.suspends, hb]
  | ioReject hu hopen hslot =>
    refine iff_of_true (hown.same h rfl rfl fun _ c hc => ⟨c, hc⟩) ?_
    simp [St.keepsObjects, St.suspends_of_taken hslot]
  | ioWait hu hc hopen hslot hupd hb =>
    rw [Objects.next, if_pos rfl]
    refine (owned_yield_iff hown h hc (running_of_inUser hu) rfl).trans ?_
    simp [St.keepsObjects, St.suspends_of_slot hb hslot]
  | conditionWait hu hc =>
    rw [Objects.next, if_pos rfl]
    refine (owned_yield_iff hown h hc (running_of_inUser hu) rfl).trans ?_
    simp [St.keepsObjects]
  | conditionNotify | getCondition | openFd | closeFd =>
    exact iff_of_true (hown.same h rfl rfl fun _ c hc => ⟨c, hc⟩) rfl
  | wakeCondition hr hc | wakeIo hr hc =>
    exact iff_of_true (hown.same h rfl rfl (live_of_insert hc)) rfl
  | finish hu =>
    rw [Objects.next, if_pos (show s.coroutineExit.running = -1 from rfl)]
    exact iff_of_true (owned_finish hown h) rfl
  | @newCoroutine func id hu =>
    rw [Objects.next, if_neg (running_of_inUser hu), Objects.act, if_pos hu]
    refine iff_of_true (fun id c hc => ?_) rfl
    obtain ⟨object, horig, hnode | harg⟩ := hown id c hc
    · exact ⟨object, horig, .inl (List.mem_append_left _ hnode)⟩
    · exact ⟨object, horig, .inr harg⟩
  | @spawn func id hm hid =>
    have hpos := (St.freeId_iff.mp hid).1
    have hidle := (idle_of_inMain hm).1
    have hu : ¬ s.inUser = true := fun hu => running_of_inUser hu hidle
    rw [Objects.next, if_neg (show ¬ id = -1 by omega), Objects.act, if_neg hu]
    refine iff_of_true (owned_new hown func rfl rfl (.inr rfl) fun n hal => ?_) rfl
    rcases hal with hnode | harg
    · exact .inl hnode
    · rw [h.argument_none (.inl hidle)] at harg
      cases harg
  | run =>
    exact iff_of_true (hown.same h rfl rfl fun _ c hc => ⟨c, hc⟩) rfl
  | advance hr ha =>
    cases ha with
    | newCoFunc hpc hend =>
      rw [Objects.next, if_pos hr, h.act_clear hpc hend]
      refine owned_clear_iff.trans ?_
      simp [St.keepsObjects, hpc, hend]
    | waitResume hpc | poll hpc | batchEnd hpc | batchSkip hpc | eventOut hpc | eventEnd hpc
    | timeoutEnd hpc =>
      refine iff_of_true (hown.same h (Objects.act_sched (by simp [hpc])) rfl
        fun _ c hc => ⟨c, hc⟩) ?_
      simp [St.keepsObjects, hpc]
  | @start env it func hr hpc hf hid =>
    have hpos := (St.freeId_iff.mp hid).1
    obtain ⟨node, hnode, hact⟩ := h.act_start env hpc hf
    rw [Objects.next, if_neg (show ¬ env.id = -1 by omega), hact]
    refine iff_of_true (owned_new hown func rfl rfl (.inl hnode) fun n hal => hal) ?_
    simp [St.keepsObjects, hpc, hf]
  | @resume env pc' id why c hr htar hid hc =>
    have hpc : ∀ it, s.pc ≠ .newCoFunc it := by cases htar <;> simp [*]
    rw [Objects.next, if_neg (show ¬ id = -1 by omega), Objects.act_sched hpc]
    refine iff_of_true (fun k c₁ hk => ?_) ?_
    · obtain ⟨c₂, hc₂⟩ := live_of_insert hc k c₁ hk
      exact hown k c₂ hc₂
    · simp only [St.keepsObjects]
  | resumeDead hr htar =>
    have hpc : ∀ it, s.pc ≠ .newCoFunc it := by cases htar <;> simp [*]
    refine iff_of_true (hown.same h (Objects.act_sched hpc) rfl fun _ c hc => ⟨c, hc⟩) ?_
    simp only [St.keepsObjects]

end Moves

/-! ## Whole runs -/

theorem objects_snoc {s₀ s s' : St} {acts : List Act} {a : Act}
    (h : exec St.step s₀ acts = .next s) (hs : s.step a = .next s') :
    Objects.after s₀ (acts ++ [a]) = Objects.next s a s' (Objects.after s₀ acts) :=
  track_snoc h hs

theorem run_tracked {isOpen : Std.ExtTreeSet Int} {acts : List Act} {s : St}
    (h : exec St.step (St.init isOpen) acts = .next s) :
    Tracked s (Objects.after (St.init isOpen) acts) := by
  refine exec_induction (I := fun acts s => Tracked s (Objects.after (St.init isOpen) acts))
    (tracked_init isOpen) ?_ h
  intro acts a s s' hpre ih hs
  rw [objects_snoc hpre hs]
  exact tracked_move ih (St.step_move hs)

theorem owned_init (isOpen : Std.ExtTreeSet Int) : Owned (St.init isOpen) {} := by
  intro id c hc
  simp [St.init] at hc

/-- **Function objects of a run.** In every state of a run each coroutine that has been started and
has not ended executes an object that still exists, if and only if in no step of the run a coroutine
started before `Run` yields or `RunNewCoFunc` clears its list while there is a coroutine. -/
theorem owned_iff {isOpen : Std.ExtTreeSet Int} {acts : List Act} {s' : St}
    (h : exec St.step (St.init isOpen) acts = .next s') :
    (∀ pre s, pre <+: acts → exec St.step (St.init isOpen) pre = .next s →
      Owned s (Objects.after (St.init isOpen) pre)) ↔
    Along St.step (St.init isOpen) (fun s a => s.keepsObjects a = true) acts := by
  constructor
  · intro hall pre a s hp hpre
    obtain ⟨s₁, s₂, hpre', hs⟩ := exec_prefix h hp
    cases hpre.symm.trans hpre'
    have hown := hall pre s ((List.prefix_append pre [a]).trans hp) hpre
    have hown' := hall (pre ++ [a]) s₂ hp (exec_snoc_eq_next.mpr ⟨s, hpre, hs⟩)
    rw [objects_snoc hpre hs] at hown'
    exact (owned_move_iff hown (run_tracked hpre) (St.step_move hs)).mp hown'
  · intro halong pre s hp hpre
    refine exec_induction (I := fun pre s => pre <+: acts →
      Owned s (Objects.after (St.init isOpen) pre)) (fun _ => owned_init isOpen) ?_ hpre hp
    intro pre a s s' hpre ih hs hp
    rw [objects_snoc hpre hs]
    exact (owned_move_iff (ih ((List.prefix_append pre [a]).trans hp)) (run_tracked hpre)
      (St.step_move hs)).mpr (halong pre a s hp hpre)

/-- Two functions that run to their end without a wait: one started directly, one handed over. -/
def briefActs : List Act :=
  [.newCoroutine 0 0, .newCoroutine 7 0, .finish, .run, .sched { id := 1 }, .finish, .sched {}]

theorem owned_brief :
    (exec St.step (St.initWith []) briefActs).isNext = true ∧
    ∀ pre s, pre <+: briefActs → exec St.step (St.initWith []) pre = .next s →
      Owned s (Objects.after (St.initWith []) pre) := by
  have hrun : exec St.step (St.initWith []) briefActs = _ := exec_after (by decide)
  exact ⟨by decide, (owned_iff hrun).mpr (along_of_checkAlong (by decide))⟩

theorem not_owned_of_none {s : St} {o : Objects} {id : Int} {c : Coroutine}
    (hc : s.co[id]? = some c) (hnodes : o.nodes = []) (harg : o.argument = none) : ¬ Owned s o := by
  intro hown
  obtain ⟨object, -, hal⟩ := hown id c hc
  simp [Objects.Alive, hnodes, harg] at hal

/-- `SlaveRun` starts `DoAccept` directly, from a temporary, and it waits in `Accept`. -/
def acceptActs : List Act := [.newCoroutine 0 0, .io ⟨.accept, 5, -1, 1⟩ noData]

/-- A function handed over by the first coroutine waits in `Read`, and the list is cleared. -/
def handlerActs : List Act :=
  [.newCoroutine 0 0, .newCoroutine 7 0, .finish, .run, .sched { id := 1 },
    .io ⟨.read, 5, 0, 1⟩ noData, .sched {}]

theorem owned_neither :
    (exec St.step (St.initWith [5]) acceptActs).isNext = true ∧
    ¬ Owned (St.after [5] acceptActs) (Objects.after (St.initWith [5]) acceptActs) ∧
    (exec St.step (St.initWith [5]) handlerActs).isNext = true ∧
    ¬ Owned (St.after [5] handlerActs) (Objects.after (St.initWith [5]) handlerActs) := by
  refine ⟨by decide, ?_, by decide, ?_⟩
  · have hc : (St.after [5] acceptActs).co[(0 : Int)]? =
        some ⟨0, .COROUTINE_SUSPEND, some (.io ⟨.accept, 5, -1, 1⟩ 0)⟩ := by decide
    exact not_owned_of_none hc (by decide) (by decide)
  · have hc : (St.after [5] handlerActs).co[(1 : Int)]? =
        some ⟨7, .COROUTINE_SUSPEND, some (.io ⟨.read, 5, 0, 1⟩ 0)⟩ := by decide
    exact not_owned_of_none hc (by decide) (by decide)

end Net
end CoSocket
