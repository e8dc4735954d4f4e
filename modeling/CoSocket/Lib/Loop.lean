import Mathlib.Logic.Basic

/-!
# Loop

A `while` loop as a function of its body. One round of the body goes on with a new state or leaves
the loop with a result; `loop` runs it with fuel, and `loop_ends` is the rule for total correctness:
an invariant, a variant that goes down with each round, and what holds of a result.

Nothing here depends on a particular loop.
-/

namespace Loop

/-- What one round of a loop does. -/
inductive Round (σ ρ : Type*) where
  | again (s : σ)
  | leave (r : ρ)

variable {σ ρ : Type*} {body : σ → Round σ ρ}

/-- The loop, for at most `fuel` rounds; `none` means that it has not been left by then. -/
def loop (body : σ → Round σ ρ) : Nat → σ → Option ρ
  | 0, _ => none
  | fuel + 1, s =>
    match body s with
    | .again s' => loop body fuel s'
    | .leave r => some r

theorem loop_again {s s' : σ} (h : body s = .again s') (fuel : Nat) :
    loop body (fuel + 1) s = loop body fuel s' := by
  simp only [loop, h]

theorem loop_leave {s : σ} {r : ρ} (h : body s = .leave r) (fuel : Nat) :
    loop body (fuel + 1) s = some r := by
  simp only [loop, h]

theorem loop_agains {f : Nat → σ} {n : Nat} (h : ∀ i < n, body (f i) = .again (f (i + 1)))
    (fuel : Nat) : loop body (n + fuel) (f 0) = loop body fuel (f n) := by
  induction n generalizing fuel with
  | zero => rw [Nat.zero_add]
  | succ n ih =>
    rw [Nat.add_assoc, Nat.add_comm 1 fuel, ih fun i hi => h i (by omega)]
    exact loop_again (h n (Nat.lt_succ_self n)) fuel

/-- Total correctness: from a state where the invariant holds the loop is left, with one result for
every amount of fuel above the variant. -/
theorem loop_ends (body : σ → Round σ ρ) {I : σ → Prop} {variant : σ → Nat} {Q : ρ → Prop}
    (hagain : ∀ s s', I s → body s = .again s' → I s' ∧ variant s' < variant s)
    (hleave : ∀ s r, I s → body s = .leave r → Q r) {s : σ} (h : I s) :
    ∃ r, Q r ∧ ∀ fuel, variant s < fuel → loop body fuel s = some r := by
  induction hv : variant s using Nat.strongRecOn generalizing s with
  | ind v ih =>
    subst hv
    cases hb : body s with
    | leave r =>
      refine ⟨r, hleave s r h hb, fun fuel hf => ?_⟩
      obtain ⟨fuel, rfl⟩ : ∃ k, fuel = k + 1 := ⟨fuel - 1, by omega⟩
      exact loop_leave hb fuel
    | again s' =>
      obtain ⟨h', hlt⟩ := hagain s s' h hb
      obtain ⟨r, hpost, hr⟩ := ih _ hlt h' rfl
      refine ⟨r, hpost, fun fuel hf => ?_⟩
      obtain ⟨fuel, rfl⟩ : ∃ k, fuel = k + 1 := ⟨fuel - 1, by omega⟩
      rw [loop_again hb]
      exact hr fuel (by omega)

/-- Partial correctness: what holds of all that the body leaves with holds of every result. -/
theorem loop_result {Q : ρ → Prop} (hleave : ∀ s r, body s = .leave r → Q r) {fuel : Nat} {s : σ}
    {r : ρ} (h : loop body fuel s = some r) : Q r := by
  induction fuel generalizing s with
  | zero => cases h
  | succ fuel ih =>
    cases hb : body s with
    | again s' =>
      rw [loop_again hb] at h
      exact ih h
    | leave r' =>
      rw [loop_leave hb] at h
      cases h
      exact hleave s r hb

end Loop
