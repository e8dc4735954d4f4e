import CoSocket.Base.Bytes
import CoSocket.Lib.Lts
import CoSocket.Net.State

/-!
# Third.Coroutine

`3rd/coroutine/coroutine.c`: the table of coroutines, and the one stack they share.

A coroutine runs on the stack of its schedule. `coroutine_yield` copies the part in use to the
heap, and `coroutine_resume` copies it back. What a coroutine does with the stack while it runs is
the step `work`, which may write anything; how much of the stack is in use when it yields is an
input.

`faults_iff` says when a call fails, `new_fresh` that `coroutine_new` always finds a slot, and
`stack_kept` that a coroutine finds its part of the stack as it left it. Memory is taken to be there
whenever it is asked for, and the `int`s of the schedule not to overflow: `cap * 2` does so with
2^30 coroutines, to which `new_fresh` keeps.
-/

namespace CoSocket
namespace Third

open Base Lts

def STACK_SIZE : Nat := 1024 * 1024

def DEFAULT_COROUTINE : Nat := 16

/-- `struct coroutine`. `stack` is the saved part of the stack, so that `size` is its length; `cap`
is the size of the block it is in. -/
structure Coroutine (φ : Type) where
  func : φ
  cap : Nat := 0
  stack : Bytes := []
  status : Net.Status := .COROUTINE_READY
deriving DecidableEq, Repr

/-- `struct schedule`; `co` is an array of `cap` pointers. -/
structure Schedule (φ : Type) where
  stack : Bytes
  nco : Nat
  cap : Nat
  running : Int
  co : List (Option (Coroutine φ))
deriving DecidableEq, Repr

/-- A failed assertion, or a use of the null pointer. -/
inductive Fault where
  | assertion
  | nullPointer
deriving DecidableEq, Repr

namespace Schedule

variable {φ : Type}

/-- `S->co[id]` -/
def lookup (s : Schedule φ) (id : Nat) : Option (Coroutine φ) := (s.co[id]?).join

/-- `coroutine_open`; what the new stack holds is not known. -/
def coroutineOpen (φ : Type) (stack : Bytes) : Schedule φ where
  stack
  nco := 0
  cap := DEFAULT_COROUTINE
  running := -1
  co := List.replicate DEFAULT_COROUTINE none

/-- `coroutine_new`, with its return value; `none` is the assertion behind the loop. -/
def coroutineNew (s : Schedule φ) (func : φ) : Option (Nat × Schedule φ) :=
  let co : Coroutine φ := { func }
  if s.nco ≥ s.cap then
    let grown := s.co ++ List.replicate s.cap none
    some (s.cap, { s with co := grown.set s.cap (some co), cap := s.cap * 2, nco := s.nco + 1 })
  else
    let ids := (List.range s.cap).map fun i => (i + s.nco) % s.cap
    match ids.find? fun id => (s.lookup id).isNone with
    | some id => some (id, { s with co := s.co.set id (some co), nco := s.nco + 1 })
    | none => none

/-- `coroutine_resume`, up to the switch into the coroutine. -/
def coroutineResume (s : Schedule φ) (id : Int) : Outcome (Schedule φ) Fault :=
  if s.running ≠ -1 ∨ ¬(id ≥ 0 ∧ id < s.cap) then .trapped .assertion
  else
    match s.lookup id.toNat with
    | none => .next s
    | some c =>
      let co := s.co.set id.toNat (some { c with status := .COROUTINE_RUNNING })
      match c.status with
      | .COROUTINE_READY => .next { s with running := id, co }
      | .COROUTINE_SUSPEND =>
        .next { s with
          stack := s.stack.take (STACK_SIZE - c.stack.length) ++ c.stack
          running := id
          co }
      | .COROUTINE_RUNNING => .trapped .assertion

/-- `_save_stack`, with the `size` bytes at the end of the stack in use. -/
def saveStack (c : Coroutine φ) (stack : Bytes) (size : Nat) : Coroutine φ :=
  { c with
    cap := if c.cap < size then size else c.cap
    stack := stack.drop (STACK_SIZE - size) }

/-- `coroutine_yield`, up to the switch into the main context. -/
def coroutineYield (s : Schedule φ) (size : Nat) : Outcome (Schedule φ) Fault :=
  if s.running < 0 then .trapped .assertion
  else
    match s.lookup s.running.toNat with
    | none => .trapped .nullPointer
    | some c =>
      if size > STACK_SIZE then .trapped .assertion
      else
        let c := { saveStack c s.stack size with status := .COROUTINE_SUSPEND }
        .next { s with co := s.co.set s.running.toNat (some c), running := -1 }

/-- The end of `mainfunc`, when the coroutine's function has returned. -/
def mainfuncEnd (s : Schedule φ) : Schedule φ :=
  { s with co := s.co.set s.running.toNat none, nco := s.nco - 1, running := -1 }

/-! ## Runs -/

inductive Act (φ : Type) where
  | new (func : φ)
  | resume (id : Int)
  | work (stack : Bytes)
  | yield (size : Nat)
  | finish

/-- One call, or what the running coroutine does on the stack. Only a coroutine's function
returns to `mainfunc`, and only a coroutine works on the stack. -/
def step (s : Schedule φ) : Act φ → Outcome (Schedule φ) Fault
  | .new func =>
    match s.coroutineNew func with
    | some (_, s') => .next s'
    | none => .trapped .assertion
  | .resume id => s.coroutineResume id
  | .work stack =>
    if 0 ≤ s.running ∧ stack.length = STACK_SIZE then .next { s with stack } else .disabled
  | .yield size => s.coroutineYield size
  | .finish => if 0 ≤ s.running then .next s.mainfuncEnd else .disabled

/-- Reached from `coroutine_open`. -/
def Reachable (s : Schedule φ) : Prop :=
  ∃ stack : Bytes, stack.length = STACK_SIZE ∧ Reach step Any (coroutineOpen φ stack) s

/-! ## The table -/

theorem lookup_set {s t : Schedule φ} {id : Nat} (h : id < s.co.length)
    {c : Option (Coroutine φ)} (hco : t.co = s.co.set id c) (j : Nat) :
    t.lookup j = if j = id then c else s.lookup j := by
  unfold lookup
  rw [hco, List.getElem?_set]
  by_cases hj : j = id
  · subst hj
    rw [if_pos rfl, if_pos h, if_pos rfl]
    rfl
  · rw [if_neg (Ne.symm hj), if_neg hj]

theorem lookup_lt {s : Schedule φ} {id : Nat} {c : Coroutine φ} (h : s.lookup id = some c) :
    id < s.co.length := by
  by_contra hlt
  rw [lookup, List.getElem?_eq_none (Nat.le_of_not_lt hlt)] at h
  cases h

/-- What the table and the stack keep. -/
structure Inv (s : Schedule φ) : Prop where
  length : s.co.length = s.cap
  pos : 0 < s.cap
  count : s.nco = s.co.countP Option.isSome
  stack : s.stack.length = STACK_SIZE
  saved : ∀ id c, s.lookup id = some c → c.stack.length ≤ c.cap ∧ c.stack.length ≤ STACK_SIZE
  status : ∀ id c, s.lookup id = some c → (c.status = .COROUTINE_RUNNING ↔ s.running = id)
  running : s.running = -1 ∨ ∃ id : Nat, s.running = id ∧ (s.lookup id).isSome

theorem inv_open {stack : Bytes} (h : stack.length = STACK_SIZE) : Inv (coroutineOpen φ stack) := by
  have hnone : ∀ id c, (coroutineOpen φ stack).lookup id ≠ some c := by
    intro id c hc
    rw [lookup, coroutineOpen, List.getElem?_replicate] at hc
    split at hc <;> cases hc
  refine ⟨rfl, Nat.succ_pos _, ?_, h, ?_, ?_, .inl rfl⟩
  · rw [coroutineOpen, List.countP_replicate]
    rfl
  · intro id c hc
    exact absurd hc (hnone id c)
  · intro id c hc
    exact absurd hc (hnone id c)

theorem count_set {s : Schedule φ} {id : Nat} (h : id < s.co.length)
    (c : Option (Coroutine φ)) :
    (s.co.set id c).countP Option.isSome + (if (s.lookup id).isSome then 1 else 0) =
      s.co.countP Option.isSome + (if c.isSome then 1 else 0) := by
  have hle := List.boole_getElem_le_countP (p := Option.isSome) h
  have hlookup : s.lookup id = s.co[id] := by
    rw [lookup, List.getElem?_eq_getElem h]
    rfl
  rw [List.countP_set h, hlookup]
  omega

/-- `coroutine_new` finds a free slot in a table that is not full, wherever it begins to look. -/
theorem exists_slot {s : Schedule φ} (h : Inv s) (hroom : s.nco < s.cap) :
    ∃ id, (((List.range s.cap).map fun i => (i + s.nco) % s.cap).find?
      fun id => (s.lookup id).isNone) = some id := by
  have hfree : ∃ id < s.cap, s.lookup id = none := by
    by_contra hfull
    have hall : ∀ c ∈ s.co, Option.isSome c = true := by
      intro c hc
      obtain ⟨id, hid, hget⟩ := List.mem_iff_getElem.mp hc
      rw [← hget, Option.isSome_iff_ne_none]
      intro hnone
      refine hfull ⟨id, by rw [← h.length]; exact hid, ?_⟩
      rw [lookup, List.getElem?_eq_getElem hid, hnone]
      rfl
    have := List.countP_eq_length.mpr hall
    have := h.count
    have := h.length
    omega
  obtain ⟨id, hid, hnone⟩ := hfree
  rw [← Option.isSome_iff_exists, List.find?_isSome]
  refine ⟨id, List.mem_map.mpr ⟨(id + s.cap - s.nco) % s.cap, ?_, ?_⟩, by rw [hnone]; rfl⟩
  · exact List.mem_range.mpr (Nat.mod_lt _ h.pos)
  · rw [Nat.mod_add_mod, Nat.sub_add_cancel (by omega), Nat.add_mod_right, Nat.mod_eq_of_lt hid]

/-- The table after `realloc` and `memset`. -/
def grown (s : Schedule φ) : Schedule φ :=
  { s with co := s.co ++ List.replicate s.cap none, cap := s.cap * 2 }

theorem lookup_grown (s : Schedule φ) (id : Nat) : s.grown.lookup id = s.lookup id := by
  unfold lookup grown
  dsimp only
  by_cases h : id < s.co.length
  · rw [List.getElem?_append_left h]
  · rw [List.getElem?_append_right (Nat.le_of_not_lt h), List.getElem?_replicate,
      List.getElem?_eq_none (Nat.le_of_not_lt h)]
    split <;> rfl

theorem inv_grown {s : Schedule φ} (h : Inv s) : Inv s.grown where
  length := by
    rw [grown, List.length_append, List.length_replicate, h.length]
    exact (Nat.mul_two s.cap).symm
  pos := Nat.mul_pos h.pos (by decide)
  count := by
    rw [grown, List.countP_append, List.countP_replicate]
    simpa using h.count
  stack := h.stack
  saved := fun id c hc => h.saved id c (by rwa [lookup_grown] at hc)
  status := fun id c hc => h.status id c (by rwa [lookup_grown] at hc)
  running := by
    simp only [lookup_grown]
    exact h.running

/-- Where `coroutine_new` puts the new coroutine. -/
theorem coroutineNew_cases {s : Schedule φ} (h : Inv s) (func : φ) :
    ∃ id g, s.coroutineNew func =
        some (id, { g with co := g.co.set id (some { func }), nco := g.nco + 1 }) ∧
      Inv g ∧ id < g.cap ∧ (g = s ∨ g = s.grown) ∧ s.lookup id = none := by
  unfold coroutineNew
  dsimp only
  by_cases hfull : s.nco ≥ s.cap
  · rw [if_pos hfull]
    refine ⟨s.cap, s.grown, rfl, inv_grown h, ?_, .inr rfl, ?_⟩
    · have := h.pos
      show s.cap < s.cap * 2
      omega
    · rw [lookup, List.getElem?_eq_none (Nat.le_of_eq h.length)]
      rfl
  · rw [if_neg hfull]
    obtain ⟨id, hid⟩ := exists_slot h (Nat.lt_of_not_le hfull)
    rw [hid]
    have hmem := List.mem_of_find?_eq_some hid
    have hnone := List.find?_some hid
    obtain ⟨i, -, rfl⟩ := List.mem_map.mp hmem
    exact ⟨_, s, rfl, h, Nat.mod_lt _ h.pos, .inl rfl, Option.isNone_iff_eq_none.mp hnone⟩

/-! ## What the calls keep -/

theorem Inv.free_ne_running {s : Schedule φ} (h : Inv s) {id : Nat} (hid : s.lookup id = none) :
    s.running ≠ id := by
  rcases h.running with hr | ⟨k, hr, hsome⟩
  · rw [hr]
    omega
  · rw [hr]
    intro heq
    obtain rfl : k = id := Int.ofNat.inj heq
    rw [hid] at hsome
    cases hsome

theorem inv_new {g : Schedule φ} (h : Inv g) {id : Nat} (hid : id < g.cap)
    (hnone : g.lookup id = none) (func : φ) :
    Inv { g with co := g.co.set id (some { func }), nco := g.nco + 1 } := by
  rw [← h.length] at hid
  have hlookup := fun j => lookup_set (t := { g with
    co := g.co.set id (some { func }), nco := g.nco + 1 }) hid rfl j
  refine ⟨?_, h.pos, ?_, h.stack, fun j c hc => ?_, fun j c hc => ?_, ?_⟩
  · rw [← h.length]
    exact List.length_set
  · have := count_set hid (some { func })
    rw [hnone] at this
    simpa [h.count] using this.symm
  · rw [hlookup] at hc
    split at hc
    · cases hc
      exact ⟨Nat.zero_le _, Nat.zero_le _⟩
    · exact h.saved j c hc
  · rw [hlookup] at hc
    split at hc
    · rename_i heq
      cases hc
      subst heq
      constructor
      · intro hready
        cases hready
      · intro hr
        exact absurd hr (h.free_ne_running hnone)
    · exact h.status j c hc
  · rcases h.running with hr | ⟨k, hr, hsome⟩
    · exact .inl hr
    · refine .inr ⟨k, hr, ?_⟩
      rw [hlookup]
      split
      · rfl
      · exact hsome

theorem inv_switch {s : Schedule φ} (h : Inv s) {id : Nat} {c c' : Coroutine φ}
    (hid : s.lookup id = some c) (hsaved : c'.stack.length ≤ c'.cap ∧ c'.stack.length ≤ STACK_SIZE)
    {r : Int} (hr : r = -1 ∨ r = id) (hstatus : c'.status = .COROUTINE_RUNNING ↔ r = id)
    (hold : s.running = -1 ∨ s.running = id) {stack : Bytes} (hstack : stack.length = STACK_SIZE) :
    Inv { s with co := s.co.set id (some c'), running := r, stack } := by
  have hlt := lookup_lt hid
  have hlookup := fun j => lookup_set (t := { s with
    co := s.co.set id (some c'), running := r, stack }) hlt rfl j
  refine ⟨?_, h.pos, ?_, hstack, fun j d hd => ?_, fun j d hd => ?_, ?_⟩
  · rw [← h.length]
    exact List.length_set
  · have := count_set hlt (some c')
    rw [hid] at this
    simpa [h.count] using this.symm
  · rw [hlookup] at hd
    split at hd
    · cases hd
      exact hsaved
    · exact h.saved j d hd
  · rw [hlookup] at hd
    split at hd
    · rename_i heq
      cases hd
      subst heq
      exact hstatus
    · rename_i hne
      have hidle := h.status j d hd
      constructor
      · intro hrun
        have := hidle.mp hrun
        rcases hold with hold | hold <;> rw [hold] at this <;> omega
      · intro hrun
        dsimp only at hrun
        rcases hr with rfl | rfl <;> omega
  · rcases hr with rfl | rfl
    · exact .inl rfl
    · refine .inr ⟨id, rfl, ?_⟩
      rw [hlookup, if_pos rfl]
      rfl

theorem inv_mainfuncEnd {s : Schedule φ} (h : Inv s) (hr : 0 ≤ s.running) : Inv s.mainfuncEnd := by
  obtain ⟨id, hid, hsome⟩ := h.running.resolve_left (by omega)
  obtain ⟨c, hc⟩ := Option.isSome_iff_exists.mp hsome
  have hlt := lookup_lt hc
  have hnat : s.running.toNat = id := by omega
  have hlookup := lookup_set (t := s.mainfuncEnd) hlt (by rw [mainfuncEnd, hnat])
  refine ⟨?_, h.pos, ?_, h.stack, fun j d hd => ?_, fun j d hd => ?_, .inl rfl⟩
  · rw [mainfuncEnd, List.length_set]
    exact h.length
  · have hset := count_set hlt none
    have hcount := h.count
    rw [hc] at hset
    simp only [Option.isSome_some, Option.isSome_none, if_true] at hset
    simp only [mainfuncEnd, hnat]
    simp at hset
    omega
  · rw [hlookup] at hd
    split at hd
    · cases hd
    · exact h.saved j d hd
  · rw [hlookup] at hd
    split at hd
    · cases hd
    · rename_i hne
      have := h.status j d hd
      rw [this, hid]
      constructor
      · intro hrun
        omega
      · intro hrun
        rw [mainfuncEnd] at hrun
        dsimp only at hrun
        omega

/-! ## Each call -/

/-- The calls that fail. -/
def Faulty (s : Schedule φ) : Act φ → Prop
  | .resume id => s.running ≠ -1 ∨ id < 0 ∨ s.cap ≤ id
  | .yield size => s.running < 0 ∨ STACK_SIZE < size
  | _ => False

theorem step_faulty {s : Schedule φ} (h : Inv s) {a : Act φ} (ha : Faulty s a) :
    step s a = .trapped .assertion := by
  cases a with
  | resume id =>
    simp only [Faulty] at ha
    rw [step, coroutineResume, if_pos (by omega)]
  | yield size =>
    rw [step, coroutineYield]
    by_cases hr : s.running < 0
    · rw [if_pos hr]
    · obtain ⟨id, hid, hsome⟩ := h.running.resolve_left (by omega)
      obtain ⟨c, hc⟩ := Option.isSome_iff_exists.mp hsome
      have hnat : s.running.toNat = id := by omega
      rw [if_neg hr, hnat, hc]
      exact if_pos (ha.resolve_left hr)
  | new | work | finish => exact absurd ha id

/-- What `coroutine_resume` does when it does not fail. -/
theorem coroutineResume_cases {s : Schedule φ} (h : Inv s) {id : Int}
    (hok : ¬Faulty s (.resume id)) :
    s.lookup id.toNat = none ∧ s.coroutineResume id = .next s ∨
      ∃ c stack, s.lookup id.toNat = some c ∧ stack.length = STACK_SIZE ∧
        stack.drop (STACK_SIZE - c.stack.length) =
          (if c.status = .COROUTINE_SUSPEND then c.stack
            else s.stack.drop (STACK_SIZE - c.stack.length)) ∧
        s.coroutineResume id = .next { s with
          co := s.co.set id.toNat (some { c with status := .COROUTINE_RUNNING })
          running := id
          stack } := by
  simp only [Faulty, not_or, not_not, Int.not_lt, Int.not_le] at hok
  obtain ⟨hidle, hge, hlt⟩ := hok
  have hguard : ¬(s.running ≠ -1 ∨ ¬(id ≥ 0 ∧ id < s.cap)) := by
    rw [not_or, not_not, not_not]
    exact ⟨hidle, hge, hlt⟩
  rw [coroutineResume, if_neg hguard]
  cases hlookup : s.lookup id.toNat with
  | none => exact .inl ⟨rfl, rfl⟩
  | some c =>
    have hsaved := (h.saved _ c hlookup).2
    have hnot : c.status ≠ .COROUTINE_RUNNING := by
      intro hrun
      have := (h.status _ c hlookup).mp hrun
      omega
    right
    dsimp only
    cases hstatus : c.status with
    | COROUTINE_READY => exact ⟨c, s.stack, rfl, h.stack, by rw [if_neg (by simp [hstatus])], rfl⟩
    | COROUTINE_SUSPEND =>
      have hlen : (s.stack.take (STACK_SIZE - c.stack.length)).length =
          STACK_SIZE - c.stack.length := by
        rw [List.length_take, h.stack]
        omega
      refine ⟨c, _, rfl, ?_, ?_, rfl⟩
      · rw [List.length_append, hlen]
        omega
      · rw [if_pos hstatus]
        exact List.drop_left' hlen
    | COROUTINE_RUNNING => exact absurd hstatus hnot

theorem length_saveStack {s : Schedule φ} (h : Inv s) (c : Coroutine φ) {size : Nat}
    (hsize : size ≤ STACK_SIZE) : (saveStack c s.stack size).stack.length = size := by
  rw [saveStack, List.length_drop, h.stack]
  omega

/-- What `coroutine_yield` does when it does not fail. -/
theorem coroutineYield_cases {s : Schedule φ} (h : Inv s) {size : Nat}
    (hok : ¬Faulty s (.yield size)) :
    ∃ id c, s.running = (id : Nat) ∧ s.lookup id = some c ∧ size ≤ STACK_SIZE ∧
      s.coroutineYield size = .next { s with
        co := s.co.set id
          (some { saveStack c s.stack size with status := .COROUTINE_SUSPEND })
        running := -1 } := by
  simp only [Faulty, not_or, Int.not_lt, Nat.not_lt] at hok
  obtain ⟨hge, hsize⟩ := hok
  obtain ⟨id, hid, hsome⟩ := h.running.resolve_left (by omega)
  obtain ⟨c, hc⟩ := Option.isSome_iff_exists.mp hsome
  have hnat : s.running.toNat = id := by omega
  refine ⟨id, c, hid, hc, hsize, ?_⟩
  rw [coroutineYield, if_neg (by omega), hnat, hc]
  dsimp only
  rw [if_neg (by omega)]

theorem inv_step {s s' : Schedule φ} (h : Inv s) {a : Act φ} (hs : step s a = .next s') :
    Inv s' := by
  cases a with
  | new func =>
    obtain ⟨id, g, hnew, hg, hid, hcases, hnone⟩ := coroutineNew_cases h func
    simp only [step, hnew] at hs
    cases hs
    refine inv_new hg hid ?_ func
    rcases hcases with rfl | rfl
    · exact hnone
    · rwa [lookup_grown]
  | resume id =>
    by_cases hfault : Faulty s (.resume id)
    · rw [step_faulty h hfault] at hs
      cases hs
    · rcases coroutineResume_cases h hfault with ⟨-, hres⟩ | ⟨c, stack, hc, hstack, -, hres⟩
      · rw [step, hres] at hs
        cases hs
        exact h
      · rw [step, hres] at hs
        cases hs
        simp only [Faulty, not_or, not_not, Int.not_lt] at hfault
        have hnat : ((id.toNat : Nat) : Int) = id := Int.toNat_of_nonneg hfault.2.1
        refine inv_switch h hc ?_ (.inr hnat.symm) ?_ (.inl hfault.1) hstack
        · exact h.saved _ c hc
        · exact ⟨fun _ => hnat.symm, fun _ => rfl⟩
  | work stack =>
    simp only [step] at hs
    split at hs
    · rename_i hok
      cases hs
      exact ⟨h.length, h.pos, h.count, hok.2, h.saved, h.status, h.running⟩
    · cases hs
  | yield size =>
    by_cases hfault : Faulty s (.yield size)
    · rw [step_faulty h hfault] at hs
      cases hs
    · obtain ⟨id, c, hid, hc, hsize, hyield⟩ := coroutineYield_cases h hfault
      rw [step, hyield] at hs
      cases hs
      have hlen := length_saveStack h c hsize
      refine inv_switch h hc ⟨?_, ?_⟩ (.inl rfl) ?_ (.inr hid) h.stack
      · rw [show List.length _ = size from hlen]
        dsimp only [saveStack]
        split <;> omega
      · rw [show List.length _ = size from hlen]
        exact hsize
      · constructor
        · intro hrun
          cases hrun
        · intro hrun
          omega
  | finish =>
    simp only [step] at hs
    split at hs
    · rename_i hr
      cases hs
      exact inv_mainfuncEnd h hr
    · cases hs

theorem Reachable.inv {s : Schedule φ} (h : Reachable s) : Inv s := by
  obtain ⟨stack, hstack, hreach⟩ := h
  exact hreach.invariant (inv_open hstack) fun _ _ _ _ hinv _ hs => inv_step hinv hs

/-! ## The results -/

/-- The only calls that fail are `coroutine_resume` inside a coroutine or with an id outside the
table, and `coroutine_yield` outside a coroutine or with more of the stack in use than there is.
The table is never found full, no coroutine is resumed while it runs, and no null pointer is
used. -/
theorem faults_iff {s : Schedule φ} (h : Reachable s) (a : Act φ) (f : Fault) :
    step s a = .trapped f ↔ f = .assertion ∧ Faulty s a := by
  have hinv := h.inv
  constructor
  · intro hs
    by_cases hfault : Faulty s a
    · rw [step_faulty hinv hfault] at hs
      cases hs
      exact ⟨rfl, hfault⟩
    · exfalso
      cases a with
      | new func =>
        obtain ⟨id, g, hnew, -⟩ := coroutineNew_cases hinv func
        rw [step, hnew] at hs
        cases hs
      | resume id =>
        rcases coroutineResume_cases hinv hfault with ⟨-, hres⟩ | ⟨c, stack, -, -, -, hres⟩ <;>
          rw [step, hres] at hs <;> cases hs
      | work stack =>
        rw [step] at hs
        split at hs <;> cases hs
      | yield size =>
        obtain ⟨id, c, -, -, -, hyield⟩ := coroutineYield_cases hinv hfault
        rw [step, hyield] at hs
        cases hs
      | finish =>
        rw [step] at hs
        split at hs <;> cases hs
  · rintro ⟨rfl, hfault⟩
    exact step_faulty hinv hfault

/-- What a new stack may hold. -/
def zeros : Bytes := List.replicate STACK_SIZE 0

/-- The schedule after some calls. -/
def played (acts : List (Act Unit)) : Schedule Unit :=
  (exec step (coroutineOpen Unit zeros) acts).stateD (coroutineOpen Unit zeros)

theorem exec_played (acts : List (Act Unit))
    (h : (exec step (coroutineOpen Unit zeros) acts).isNext = true) :
    exec step (coroutineOpen Unit zeros) acts = .next (played acts) :=
  Outcome.eq_next_of_isNext h _

theorem reachable_played {acts : List (Act Unit)}
    (h : (exec step (coroutineOpen Unit zeros) acts).isNext = true) : Reachable (played acts) :=
  ⟨zeros, List.length_replicate, reach_of_exec (exec_played acts h)⟩

/-- Inside a coroutine no other one can be resumed. -/
theorem faults_resume_inside :
    step (played [.new (), .new (), .resume 0]) (.resume 1) = .trapped .assertion :=
  (faults_iff (reachable_played rfl) _ _).mpr ⟨rfl, .inl (by decide)⟩

/-- `coroutine_new` always returns an id of the table that no coroutine has, puts the new coroutine
there and leaves the others where they are; `nco` is the number of coroutines after it. A table of
less than 2^30 slots can grow. -/
theorem new_fresh {s : Schedule φ} (h : Reachable s) (hcap : s.cap < 2 ^ 30) (func : φ) :
    ∃ id s', s.coroutineNew func = some (id, s') ∧ id < s'.cap ∧ s'.cap < 2 ^ 31 ∧
      s.lookup id = none ∧ (∀ j, s'.lookup j = if j = id then some { func } else s.lookup j) ∧
        s'.nco = s'.co.countP Option.isSome := by
  have hinv := h.inv
  obtain ⟨id, g, hnew, hg, hid, hcases, hnone⟩ := coroutineNew_cases hinv func
  have hsame : ∀ j, g.lookup j = s.lookup j := by
    intro j
    rcases hcases with rfl | rfl
    · rfl
    · exact lookup_grown s j
  have hbound : g.cap < 2 ^ 31 := by
    rcases hcases with rfl | rfl
    · omega
    · show s.cap * 2 < 2 ^ 31
      omega
  refine ⟨id, _, hnew, hid, hbound, hnone, fun j => ?_, ?_⟩
  · rw [lookup_set (s := g) (by rw [hg.length]; exact hid) rfl, hsame]
  · exact (inv_new hg hid (by rw [hsame]; exact hnone) func).count

/-- Sixteen coroutines fill the table, and the first one has ended. -/
def endedFirst : List (Act Unit) := List.replicate 16 (.new ()) ++ [.resume 0, .finish]

/-- The search begins at the last slot, which is taken, and comes to the first one. Then the table
is full and grows. -/
theorem new_fresh_reused :
    (∃ s', (played endedFirst).coroutineNew () = some (0, s') ∧ (played endedFirst).nco = 15 ∧
      ((played endedFirst).lookup 15).isSome ∧ s'.nco = s'.co.countP Option.isSome) ∧
    ∃ s', (played (endedFirst ++ [.new ()])).coroutineNew () = some (16, s') ∧
      (∀ j, s'.lookup j = if j = 16 then some { func := () } else
        (played (endedFirst ++ [.new ()])).lookup j) ∧ s'.cap < 2 ^ 31 := by
  constructor
  · obtain ⟨id, s', hnew, -, -, -, -, hcount⟩ :=
      new_fresh (s := played endedFirst) (reachable_played rfl) (by decide) ()
    have hid : some id = some 0 := by
      rw [← show ((played endedFirst).coroutineNew ()).map Prod.fst = some 0 from rfl, hnew]
      rfl
    cases hid
    exact ⟨s', hnew, rfl, rfl, hcount⟩
  · obtain ⟨id, s', hnew, -, hcap, -, hlookup, -⟩ :=
      new_fresh (s := played (endedFirst ++ [.new ()])) (reachable_played rfl) (by decide) ()
    have hid : some id = some 16 := by
      rw [← show ((played (endedFirst ++ [.new ()])).coroutineNew ()).map Prod.fst = some 16
        from rfl, hnew]
      rfl
    cases hid
    exact ⟨s', hnew, hlookup, hcap⟩

/-- A suspended coroutine stays as it is until it is resumed. -/
theorem suspended_kept {s s' : Schedule φ} (h : Inv s) {id : Nat} {c : Coroutine φ}
    (hc : s.lookup id = some c) (hstatus : c.status = .COROUTINE_SUSPEND) {a : Act φ}
    (ha : a ≠ .resume id) (hs : step s a = .next s') : s'.lookup id = some c := by
  have hnot : s.running ≠ id := by
    intro hr
    have := (h.status id c hc).mpr hr
    rw [hstatus] at this
    cases this
  cases a with
  | new func =>
    obtain ⟨k, g, hnew, hg, hk, hcases, hnone⟩ := coroutineNew_cases h func
    rw [step, hnew] at hs
    cases hs
    have hne : id ≠ k := by
      rintro rfl
      rw [hc] at hnone
      cases hnone
    rw [lookup_set (s := g) (by rw [hg.length]; exact hk) rfl, if_neg hne]
    rcases hcases with rfl | rfl
    · exact hc
    · rw [lookup_grown]
      exact hc
  | resume k =>
    by_cases hfault : Faulty s (.resume k)
    · rw [step_faulty h hfault] at hs
      cases hs
    · have hge : 0 ≤ k := by
        simp only [Faulty, not_or, Int.not_lt] at hfault
        exact hfault.2.1
      have hne : id ≠ k.toNat := by
        rintro rfl
        exact ha (by rw [Int.toNat_of_nonneg hge])
      rcases coroutineResume_cases h hfault with ⟨-, hres⟩ | ⟨d, stack, hd, -, -, hres⟩
      · rw [step, hres] at hs
        cases hs
        exact hc
      · rw [step, hres] at hs
        cases hs
        rw [lookup_set (s := s) (lookup_lt hd) rfl, if_neg hne]
        exact hc
  | work stack =>
    rw [step] at hs
    split at hs
    · cases hs
      exact hc
    · cases hs
  | yield size =>
    by_cases hfault : Faulty s (.yield size)
    · rw [step_faulty h hfault] at hs
      cases hs
    · obtain ⟨k, d, hk, hd, -, hyield⟩ := coroutineYield_cases h hfault
      rw [step, hyield] at hs
      cases hs
      have hne : id ≠ k := by
        rintro rfl
        exact hnot hk
      rw [lookup_set (s := s) (lookup_lt hd) rfl, if_neg hne]
      exact hc
  | finish =>
    rw [step] at hs
    split at hs
    · rename_i hr
      cases hs
      obtain ⟨k, hk, hsome⟩ := h.running.resolve_left (by omega)
      obtain ⟨d, hd⟩ := Option.isSome_iff_exists.mp hsome
      have hne : id ≠ s.running.toNat := by
        rintro rfl
        omega
      have hlt : s.running.toNat < s.co.length := by
        rw [show s.running.toNat = k by omega]
        exact lookup_lt hd
      rw [lookup_set (t := s.mainfuncEnd) hlt rfl, if_neg hne]
      exact hc
    · cases hs

theorem suspended_exec {s s' : Schedule φ} (h : Inv s) {id : Nat} {c : Coroutine φ}
    (hc : s.lookup id = some c) (hstatus : c.status = .COROUTINE_SUSPEND) {as : List (Act φ)}
    (has : ∀ a ∈ as, a ≠ .resume id) (hs : exec step s as = .next s') :
    Inv s' ∧ s'.lookup id = some c := by
  induction as generalizing s with
  | nil =>
    cases hs
    exact ⟨h, hc⟩
  | cons a as ih =>
    rw [exec_cons, Outcome.andThen_eq_next] at hs
    obtain ⟨s₁, hstep, hrest⟩ := hs
    have ha := has a List.mem_cons_self
    exact ih (inv_step h hstep) (suspended_kept h hc hstatus ha hstep)
      (fun b hb => has b (List.mem_cons_of_mem a hb)) hrest

/-- The coroutines share one stack, and each of them finds its part as it left it: a coroutine that
yields with `size` bytes in use has the same bytes there when it is resumed, whatever other
coroutines have run on the stack before that. -/
theorem stack_kept {s₀ s₁ s₂ : Schedule φ} (h : Reachable s₀) {id size : Nat}
    (hid : s₀.running = id) (hyield : step s₀ (.yield size) = .next s₁) {as : List (Act φ)}
    (has : ∀ a ∈ as, a ≠ .resume id) (hexec : exec step s₁ as = .next s₂)
    (hmain : s₂.running = -1) :
    ∃ s₃, step s₂ (.resume id) = .next s₃ ∧ s₃.running = id ∧
      s₃.stack.drop (STACK_SIZE - size) = s₀.stack.drop (STACK_SIZE - size) := by
  have hinv := h.inv
  have hok : ¬Faulty s₀ (.yield size) := by
    intro hfault
    rw [step_faulty hinv hfault] at hyield
    cases hyield
  obtain ⟨k, c, hk, hc, hsize, heq⟩ := coroutineYield_cases hinv hok
  obtain rfl : k = id := by omega
  have hinv₁ := inv_step hinv hyield
  rw [step, heq] at hyield
  cases hyield
  have hlen := length_saveStack hinv c hsize
  have hlookup := lookup_set (s := s₀) (t := { s₀ with
    co := s₀.co.set k (some { saveStack c s₀.stack size with status := .COROUTINE_SUSPEND })
    running := -1 }) (lookup_lt hc) rfl k
  rw [if_pos rfl] at hlookup
  obtain ⟨hinv₂, hc₂⟩ := suspended_exec hinv₁ hlookup rfl has hexec
  have hlt := lookup_lt hc₂
  have hok₂ : ¬Faulty s₂ (.resume k) := by
    rw [hinv₂.length] at hlt
    simp only [Faulty, hmain]
    omega
  rcases coroutineResume_cases hinv₂ hok₂ with ⟨hnone, -⟩ | ⟨d, stack, hd, -, hdrop, hres⟩
  · rw [Int.toNat_natCast, hc₂] at hnone
    cases hnone
  · rw [Int.toNat_natCast, hc₂] at hd
    cases hd
    rw [if_pos rfl, show List.length _ = size from hlen] at hdrop
    exact ⟨_, hres, rfl, hdrop⟩

/-- What a coroutine may write. -/
def filled (b : UInt8) : Bytes := List.replicate STACK_SIZE b

theorem step_filled {s : Schedule φ} (hr : 0 ≤ s.running) (b : UInt8) :
    step s (.work (filled b)) = .next { s with stack := filled b } :=
  if_pos ⟨hr, List.length_replicate⟩

/-- A second coroutine writes over the stack before the first one is resumed. -/
theorem stack_kept_two :
    ∃ s₀ s₁ s₂ s₃ : Schedule Unit,
      exec step (coroutineOpen Unit zeros) [.new (), .resume 0, .work (filled 1)] = .next s₀ ∧
        step s₀ (.yield 8) = .next s₁ ∧
        exec step s₁ [.new (), .resume 1, .work (filled 2), .yield 100] = .next s₂ ∧
        s₂.stack = filled 2 ∧
        step s₂ (.resume 0) = .next s₃ ∧
        s₃.stack.drop (STACK_SIZE - 8) = List.replicate 8 1 := by
  let start := coroutineOpen Unit zeros
  have h₀ := (exec_snoc (exec_played [.new (), .resume 0] rfl) (.work (filled 1))).trans
    (step_filled (by decide) 1)
  have hreach : Reachable { played [.new (), .resume 0] with stack := filled 1 } :=
    ⟨zeros, List.length_replicate, reach_of_exec h₀⟩
  have h₁ := Outcome.eq_next_of_isNext
    (o := step { played [.new (), .resume 0] with stack := filled 1 } (.yield 8)) rfl start
  have hrun := Outcome.eq_next_of_isNext (o := exec step
    ((step { played [.new (), .resume 0] with stack := filled 1 } (.yield 8)).stateD start)
    [.new (), .resume 1]) rfl start
  have hwork := (exec_snoc hrun (.work (filled 2))).trans (step_filled (by decide) 2)
  have h₂ := (exec_snoc hwork (.yield 100)).trans (Outcome.eq_next_of_isNext rfl start)
  obtain ⟨s₃, h₃, -, hstack⟩ := @stack_kept Unit _ _ _ hreach 0 8 rfl h₁ _ (by simp) h₂ rfl
  refine ⟨_, _, _, s₃, h₀, h₁, h₂, rfl, h₃, hstack.trans ?_⟩
  show (filled 1).drop (STACK_SIZE - 8) = List.replicate 8 1
  rw [filled, List.drop_replicate]
  rfl

end Schedule

end Third
end CoSocket
