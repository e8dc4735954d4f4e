import Mathlib

/-!
# Lines

Reading a text as lines that each end in the two symbols `cr` and `lf`. `readHead` reads up to the
first empty line and gives back the lines before it and the text behind it; `readHead_lines` is the
way back: lines without the symbol `cr`, none of them empty, are read as they were written.
-/

namespace Lines

variable {α : Type*}

/-- The lines up to the first empty one, and what is behind it; `line` is the beginning of the line
that is being read. -/
def readHead [DecidableEq α] (cr lf : α) (line : List α) : List α → Option (List (List α) × List α)
  | [] => none
  | [_] => none
  | a :: b :: rest =>
    if a = cr ∧ b = lf then
      if line = [] then some ([], rest)
      else (readHead cr lf [] rest).map fun r => (line :: r.1, r.2)
    else readHead cr lf (line ++ [a]) (b :: rest)

/-- The text of the lines. -/
def written (cr lf : α) (lines : List (List α)) : List α := lines.flatMap (· ++ [cr, lf])

variable [DecidableEq α] {cr lf : α}

theorem readHead_line {line : List α} (hcr : cr ∉ line) :
    ∀ (before rest : List α), readHead cr lf before (line ++ cr :: lf :: rest) =
      if before ++ line = [] then some ([], rest)
      else (readHead cr lf [] rest).map fun r => ((before ++ line) :: r.1, r.2) := by
  induction line with
  | nil =>
    intro before rest
    rw [List.nil_append, List.append_nil, readHead, if_pos ⟨rfl, rfl⟩]
  | cons a line ih =>
    intro before rest
    have ha : a ≠ cr := fun h => hcr (h ▸ List.mem_cons_self)
    have hstep : readHead cr lf before (a :: line ++ cr :: lf :: rest) =
        readHead cr lf (before ++ [a]) (line ++ cr :: lf :: rest) := by
      cases line with
      | nil => rw [List.cons_append, List.nil_append, readHead, if_neg fun h => ha h.1]
      | cons b line => rw [List.cons_append, List.cons_append, readHead, if_neg fun h => ha h.1]
    rw [hstep, ih (fun h => hcr (List.mem_cons_of_mem _ h)), List.append_assoc,
      List.singleton_append]

/-- What is written as lines, followed by an empty one, is read as those lines. -/
theorem readHead_lines {lines : List (List α)} (hcr : ∀ line ∈ lines, cr ∉ line)
    (hne : ∀ line ∈ lines, line ≠ []) (rest : List α) :
    readHead cr lf [] (written cr lf lines ++ cr :: lf :: rest) = some (lines, rest) := by
  induction lines with
  | nil => rw [written, List.flatMap_nil, List.nil_append, readHead, if_pos ⟨rfl, rfl⟩, if_pos rfl]
  | cons line lines ih =>
    have hline := hne line List.mem_cons_self
    have hsplit : written cr lf (line :: lines) ++ cr :: lf :: rest =
        line ++ cr :: lf :: (written cr lf lines ++ cr :: lf :: rest) := by
      simp [written]
    rw [hsplit, readHead_line (hcr line List.mem_cons_self), List.nil_append, if_neg hline,
      ih (fun l hl => hcr l (List.mem_cons_of_mem _ hl))
        fun l hl => hne l (List.mem_cons_of_mem _ hl)]
    rfl

end Lines
