import CoSocket.Lib.Pieces

/-!
# Gluing

What a list of pieces looks like if it is known what they are glued together to.
-/

namespace Pieces

variable {κ ε α : Type} [DecidableEq κ]

theorem nil_of_glue {ps : List (Piece κ ε α)} (h : glue ps = []) : ps = [] := by
  cases ps with
  | nil => rfl
  | cons p ps =>
    rw [glue_cons] at h
    unfold push at h
    split at h
    · split at h <;> cases h
    · cases h

theorem note_of_glue {ps rest : List (Piece κ ε α)} {e : ε} (h : glue ps = .note e :: rest) :
    ∃ qs, ps = .note e :: qs ∧ glue qs = rest := by
  cases ps with
  | nil => cases h
  | cons p ps =>
    rw [glue_cons] at h
    cases p with
    | note e' =>
      cases h
      exact ⟨ps, rfl, rfl⟩
    | data k xs =>
      unfold push at h
      split at h
      · split at h <;> cases h
      · cases h

theorem data_of_glue {ps rest : List (Piece κ ε α)} {k : κ} {xs : List α}
    (h : glue ps = .data k xs :: rest) :
    ∃ ds qs, ps = ds.map (.data k) ++ qs ∧ ds ≠ [] ∧ ds.flatten = xs ∧ glue qs = rest := by
  induction ps generalizing xs with
  | nil => cases h
  | cons p ps ih =>
    rw [glue_cons] at h
    cases p with
    | note e => cases h
    | data k' ys =>
      by_cases hsame : ∃ zs t, glue ps = .data k' zs :: t
      · obtain ⟨zs, t, hps⟩ := hsame
        rw [hps, push_same] at h
        cases h
        obtain ⟨ds, qs, rfl, -, rfl, hqs⟩ := ih hps
        exact ⟨ys :: ds, qs, rfl, by simp, rfl, hqs⟩
      · have hpush : push (.data k' ys) (glue ps) = .data k' ys :: glue ps := by
          unfold push
          split
          · rename_i heq heq'
            cases heq
            split
            · rename_i hk
              subst hk
              exact absurd ⟨_, _, heq'⟩ hsame
            · rw [heq']
          · rfl
        rw [hpush] at h
        cases h
        exact ⟨[xs], ps, rfl, by simp, by simp, rfl⟩

theorem mem_push {e : ε} {p : Piece κ ε α} {ps : List (Piece κ ε α)} :
    .note e ∈ push p ps ↔ .note e ∈ p :: ps := by
  unfold push
  split
  · split <;> simp
  · rfl

theorem note_mem_glue {e : ε} {ps : List (Piece κ ε α)} : .note e ∈ glue ps ↔ .note e ∈ ps := by
  induction ps with
  | nil => rfl
  | cons p ps ih => rw [glue_cons, mem_push, List.mem_cons, List.mem_cons, ih]

end Pieces
