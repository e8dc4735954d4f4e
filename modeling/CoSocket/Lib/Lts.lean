import Mathlib

/-!
# Lts

Labelled transition systems given by an executable step function, and the runs of one.

* `Outcome`  — what one step can do: continue, stop the process with a trap, or not apply here.
* `Reach P`  — the states reached from a given one by steps that each satisfy a side condition `P`
  on the state and the action; `Reach.invariant` is the induction rule for it.
* `exec`     — the executable interpreter for a list of actions; `exec_induction` is the rule for
  what holds of a run as a whole, and `reach_of_exec` relates it to `Reach`.
* `Along Q`  — every step of a list of actions satisfies `Q`; `checkAlong` decides it, and
  `Along.reach` is the way from it to `Reach`.
* `track`    — a value kept beside a run that no step reads, such as a history.
* `outputs`  — what the steps of a run emit, one after another; `outputs_queue` is the rule for a
  queue, where what goes in and what comes out balance in each step.

Nothing here depends on a particular system: the state, the actions and the traps are arbitrary.
-/

namespace Lts

inductive Outcome (σ τ : Type*) where
  | next (s : σ)
  | trapped (t : τ)
  | disabled

namespace Outcome

variable {σ σ' τ : Type*}

/-- Continue with `f` after a normal step; a trap and a disabled action stay what they are. -/
def andThen : Outcome σ τ → (σ → Outcome σ' τ) → Outcome σ' τ
  | .next s, f => f s
  | .trapped t, _ => .trapped t
  | .disabled, _ => .disabled

@[simp] theorem andThen_next (s : σ) (f : σ → Outcome σ' τ) : (next s).andThen f = f s := rfl
@[simp] theorem andThen_trapped (t : τ) (f : σ → Outcome σ' τ) :
    (trapped t : Outcome σ τ).andThen f = .trapped t := rfl
@[simp] theorem andThen_disabled (f : σ → Outcome σ' τ) :
    (disabled : Outcome σ τ).andThen f = .disabled := rfl

theorem andThen_eq_next {o : Outcome σ τ} {f : σ → Outcome σ' τ} {s' : σ'} :
    o.andThen f = .next s' ↔ ∃ s, o = .next s ∧ f s = .next s' := by
  cases o <;> simp

def isNext : Outcome σ τ → Bool
  | .next _ => true
  | _ => false

/-- The state after a normal step, and `d` otherwise. -/
def stateD : Outcome σ τ → σ → σ
  | .next s, _ => s
  | _, d => d

theorem eq_next_of_isNext {o : Outcome σ τ} (h : o.isNext = true) (d : σ) :
    o = .next (o.stateD d) := by
  cases o with
  | next s => rfl
  | trapped t => cases h
  | disabled => cases h

/-- The trap that ended the process. -/
def trap : Outcome σ τ → Option τ
  | .trapped t => some t
  | _ => none

theorem eq_trapped_of_trap {o : Outcome σ τ} {t : τ} (h : o.trap = some t) : o = .trapped t := by
  cases o with
  | next s => cases h
  | trapped t' =>
    cases h
    rfl
  | disabled => cases h

end Outcome

section Runs

variable {σ α τ : Type*} {step : σ → α → Outcome σ τ}

/-- `s` is reached from `s₀` by steps that each satisfy `P`. -/
inductive Reach (step : σ → α → Outcome σ τ) (P : σ → α → Prop) (s₀ : σ) : σ → Prop where
  | refl : Reach step P s₀ s₀
  | tail {s s' : σ} {a : α} :
      Reach step P s₀ s → P s a → step s a = .next s' → Reach step P s₀ s'

/-- The side condition of a run that has none. -/
def Any (_ : σ) (_ : α) : Prop := True

/-- An invariant that holds at the start and is kept by each step holds in every state reached.
The step may use that its source state is reached, so invariants can be proved one on another. -/
theorem Reach.invariant {P : σ → α → Prop} {s₀ : σ} {I : σ → Prop} (h₀ : I s₀)
    (hstep : ∀ s a s', Reach step P s₀ s → I s → P s a → step s a = .next s' → I s') :
    ∀ {s : σ}, Reach step P s₀ s → I s := by
  intro s h
  induction h with
  | refl => exact h₀
  | tail hr hp hs ih => exact hstep _ _ _ hr ih hp hs

theorem Reach.mono {P Q : σ → α → Prop} {s₀ s : σ} (hPQ : ∀ s a, P s a → Q s a)
    (h : Reach step P s₀ s) : Reach step Q s₀ s := by
  induction h with
  | refl => exact .refl
  | tail _ hp hs ih => exact .tail ih (hPQ _ _ hp) hs

theorem Reach.any {P : σ → α → Prop} {s₀ s : σ} (h : Reach step P s₀ s) :
    Reach step Any s₀ s := h.mono fun _ _ _ => trivial

/-- The interpreter: perform the actions in order, from the first one on. -/
def exec (step : σ → α → Outcome σ τ) : σ → List α → Outcome σ τ
  | s, [] => .next s
  | s, a :: as => (step s a).andThen fun s' => exec step s' as

@[simp] theorem exec_nil (s : σ) : exec step s [] = .next s := rfl

theorem exec_cons (s : σ) (a : α) (as : List α) :
    exec step s (a :: as) = (step s a).andThen fun s' => exec step s' as := rfl

theorem exec_append (s : σ) (as bs : List α) :
    exec step s (as ++ bs) = (exec step s as).andThen fun s' => exec step s' bs := by
  induction as generalizing s with
  | nil => rfl
  | cons a as ih =>
    simp only [List.cons_append, exec_cons]
    cases step s a with
    | next s' => exact ih s'
    | trapped t => rfl
    | disabled => rfl

theorem exec_snoc {s s' : σ} {as : List α} (h : exec step s as = .next s') (a : α) :
    exec step s (as ++ [a]) = step s' a := by
  rw [exec_append, h]
  simp only [Outcome.andThen_next, exec_cons, exec_nil]
  cases step s' a <;> rfl

theorem exec_snoc_eq_next {s s' : σ} {as : List α} {a : α} :
    exec step s (as ++ [a]) = .next s' ↔
      ∃ s₁, exec step s as = .next s₁ ∧ step s₁ a = .next s' := by
  constructor
  · intro h
    rw [exec_append] at h
    obtain ⟨s₁, hs, hlast⟩ := Outcome.andThen_eq_next.mp h
    exact ⟨s₁, hs, by rw [← exec_snoc hs, exec_append, h]⟩
  · rintro ⟨s₁, hs, h⟩
    rw [exec_snoc hs, h]

/-- A run can be cut anywhere: the actions before the cut lead to a state, and the action after it
is a normal step. -/
theorem exec_prefix {s s' : σ} {as pre : List α} {a : α} (h : exec step s as = .next s')
    (hp : pre ++ [a] <+: as) :
    ∃ s₁ s₂, exec step s pre = .next s₁ ∧ step s₁ a = .next s₂ := by
  obtain ⟨rest, rfl⟩ := hp
  rw [exec_append] at h
  obtain ⟨s₂, hs, -⟩ := Outcome.andThen_eq_next.mp h
  obtain ⟨s₁, hpre, ha⟩ := exec_snoc_eq_next.mp hs
  exact ⟨s₁, s₂, hpre, ha⟩

/-- What holds of the empty run and is kept by each further step holds of every run, together with
the state it leads to. -/
theorem exec_induction {s₀ : σ} {I : List α → σ → Prop} (h₀ : I [] s₀)
    (hstep : ∀ as a s s', exec step s₀ as = .next s → I as s → step s a = .next s' →
      I (as ++ [a]) s') :
    ∀ {as : List α} {s : σ}, exec step s₀ as = .next s → I as s := by
  intro as
  induction as using List.reverseRecOn with
  | nil =>
    intro s h
    cases h
    exact h₀
  | append_singleton as a ih =>
    intro s h
    obtain ⟨s₁, hpre, hs⟩ := exec_snoc_eq_next.mp h
    exact hstep as a s₁ s hpre (ih hpre) hs

/-- Every step of the run satisfies `Q`: the state before it and the action. A step that traps
counts, and ends the run. -/
def Along (step : σ → α → Outcome σ τ) (s₀ : σ) (Q : σ → α → Prop) (as : List α) : Prop :=
  ∀ pre a s, pre ++ [a] <+: as → exec step s₀ pre = .next s → Q s a

theorem Along.take {Q : σ → α → Prop} {s₀ : σ} {as bs : List α} (h : Along step s₀ Q as)
    (hp : bs <+: as) : Along step s₀ Q bs :=
  fun pre a s hpre => h pre a s (hpre.trans hp)

theorem Along.snoc {Q : σ → α → Prop} {s₀ s : σ} {as : List α} {a : α} (h : Along step s₀ Q as)
    (hs : exec step s₀ as = .next s) (ha : Q s a) : Along step s₀ Q (as ++ [a]) := by
  intro pre b s₁ hp hpre
  rcases List.prefix_concat_iff.mp hp with heq | hp
  · obtain ⟨rfl, hb⟩ := List.append_inj' heq rfl
    cases hb
    cases hs.symm.trans hpre
    exact ha
  · exact h pre b s₁ hp hpre

/-- The executable check that every step of a run satisfies `q`. -/
def checkAlong (step : σ → α → Outcome σ τ) (q : σ → α → Bool) : σ → List α → Bool
  | _, [] => true
  | s, a :: as =>
    q s a && match step s a with
      | .next s' => checkAlong step q s' as
      | _ => true

theorem along_of_checkAlong {q : σ → α → Bool} {s₀ : σ} {as : List α}
    (h : checkAlong step q s₀ as = true) : Along step s₀ (fun s a => q s a = true) as := by
  induction as generalizing s₀ with
  | nil =>
    intro pre a s hp
    simp at hp
  | cons b bs ih =>
    simp only [checkAlong, Bool.and_eq_true] at h
    intro pre a s hp hpre
    cases pre with
    | nil =>
      cases hpre
      obtain ⟨rfl, -⟩ := List.cons_prefix_cons.mp hp
      exact h.1
    | cons c pre =>
      obtain ⟨rfl, hp'⟩ := List.cons_prefix_cons.mp hp
      rw [exec_cons] at hpre
      obtain ⟨s₁, hs, hrest⟩ := Outcome.andThen_eq_next.mp hpre
      rw [hs] at h
      exact ih h.2 pre a s hp' hrest

theorem Along.reach {P : σ → α → Prop} {s₀ s : σ} {as : List α} (hP : Along step s₀ P as)
    (h : exec step s₀ as = .next s) : Reach step P s₀ s := by
  revert hP
  refine exec_induction (I := fun as s => Along step s₀ P as → Reach step P s₀ s)
    (fun _ => .refl) ?_ h
  intro as a s s' hpre ih hs hP
  exact .tail (ih (hP.take (List.prefix_append _ _))) (hP as a s List.prefix_rfl hpre) hs

theorem reach_of_exec {s₀ s : σ} {as : List α} (h : exec step s₀ as = .next s) :
    Reach step Any s₀ s :=
  Along.reach (fun _ _ _ _ _ => trivial) h

/-- A value kept beside a run, which no step reads: `upd` changes it with each step, given the
states before and after. -/
def track {γ : Type*} (step : σ → α → Outcome σ τ) (upd : σ → α → σ → γ → γ) : σ → γ → List α → γ
  | _, g, [] => g
  | s, g, a :: as =>
    match step s a with
    | .next s' => track step upd s' (upd s a s' g) as
    | _ => g

theorem track_snoc {γ : Type*} {upd : σ → α → σ → γ → γ} {s s₁ s₂ : σ} {g : γ} {as : List α} {a : α}
    (h : exec step s as = .next s₁) (hs : step s₁ a = .next s₂) :
    track step upd s g (as ++ [a]) = upd s₁ a s₂ (track step upd s g as) := by
  induction as generalizing s g with
  | nil =>
    cases h
    simp only [List.nil_append, track, hs]
  | cons b bs ih =>
    rw [exec_cons] at h
    obtain ⟨s', hb, hrest⟩ := Outcome.andThen_eq_next.mp h
    simp only [List.cons_append, track, hb, ih hrest]

/-- What the steps of a run emit, in order; `out` reads it off a state and the action taken
there. -/
def outputs {β : Type*} (step : σ → α → Outcome σ τ) (out : σ → α → List β) (s : σ) (as : List α) :
    List β :=
  track step (fun s a _ sofar => sofar ++ out s a) s [] as

theorem outputs_snoc {β : Type*} {out : σ → α → List β} {s s₁ s₂ : σ} {as : List α} {a : α}
    (h : exec step s as = .next s₁) (hs : step s₁ a = .next s₂) :
    outputs step out s (as ++ [a]) = outputs step out s as ++ out s₁ a :=
  track_snoc h hs

/-- A queue along a run: when each step takes from the front what it emits and adds at the back what
it accepts, everything accepted so far is everything emitted so far and then the queue, in order. -/
theorem outputs_queue {β : Type*} {inp out : σ → α → List β} {queue : σ → List β} {s₀ : σ}
    (h₀ : queue s₀ = [])
    (hstep : ∀ s a s', Reach step Any s₀ s → step s a = .next s' →
      queue s ++ inp s a = out s a ++ queue s') {as : List α} {s : σ}
    (h : exec step s₀ as = .next s) :
    outputs step inp s₀ as = outputs step out s₀ as ++ queue s := by
  refine exec_induction (I := fun as s =>
    outputs step inp s₀ as = outputs step out s₀ as ++ queue s) ?_ ?_ h
  · rw [h₀]
    rfl
  · intro as a s s' hpre ih hs
    rw [outputs_snoc hpre hs, outputs_snoc hpre hs, ih, List.append_assoc,
      hstep s a s' (reach_of_exec hpre) hs, List.append_assoc]

end Runs

end Lts
