import Mathlib

/-!
# Cut

Two ways of cutting one sequence into pieces. `Refines cs fs` says that the cut `cs` is finer than
`fs`: each piece of `fs` is made of whole pieces of `cs`, so that no piece of `cs` reaches over an
end of a piece of `fs`.
-/

namespace Cut

variable {α : Type*}

def Refines (cs fs : List (List α)) : Prop :=
  ∃ css : List (List (List α)), css.map List.flatten = fs ∧ css.flatten = cs

theorem Refines.refl (cs : List (List α)) : Refines cs cs := by
  refine ⟨cs.map fun c => [c], ?_, ?_⟩
  · simp [Function.comp_def]
  · induction cs with
    | nil => rfl
    | cons c cs ih => rw [List.map_cons, List.flatten_cons, ih, List.singleton_append]

theorem refines_nil_iff {cs : List (List α)} : Refines cs [] ↔ cs = [] := by
  constructor
  · rintro ⟨css, hmap, rfl⟩
    rw [List.map_eq_nil_iff.mp hmap]
    rfl
  · rintro rfl
    exact ⟨[], rfl, rfl⟩

theorem refines_cons_iff {cs fs : List (List α)} {f : List α} :
    Refines cs (f :: fs) ↔ ∃ ds es, cs = ds ++ es ∧ ds.flatten = f ∧ Refines es fs := by
  constructor
  · rintro ⟨css, hmap, rfl⟩
    obtain ⟨ds, ess, rfl, hd, hes⟩ := List.map_eq_cons_iff.mp hmap
    exact ⟨ds, ess.flatten, rfl, hd, ess, hes, rfl⟩
  · rintro ⟨ds, es, rfl, hd, ess, hes, rfl⟩
    exact ⟨ds :: ess, by simp [hd, hes], rfl⟩

theorem Refines.flatten_eq {cs fs : List (List α)} (h : Refines cs fs) :
    cs.flatten = fs.flatten := by
  obtain ⟨css, rfl, rfl⟩ := h
  rw [List.flatten_flatten]

end Cut
