import Mathlib

/-!
# Pieces

A reader that hands out what it reads without copying it. It sets a mark where data of some kind
begins and hands out the piece between the mark and its place in the buffer when the data ends, or
when the buffer does; between the pieces it gives notes. Where the buffers end decides how the data
is cut, and nothing else: `glue` puts neighbouring pieces of one kind together again.

A mark is the list of the elements from the mark up to the place of the reader.
-/

namespace Pieces

variable {κ ε α : Type}

inductive Piece (κ ε α : Type) where
  | data (kind : κ) (xs : List α)
  | note (e : ε)
deriving DecidableEq, Repr

/-! ## Gluing -/

section Glue

variable [DecidableEq κ]

def push : Piece κ ε α → List (Piece κ ε α) → List (Piece κ ε α)
  | .data k xs, .data k' ys :: ps =>
    if k = k' then .data k (xs ++ ys) :: ps else .data k xs :: .data k' ys :: ps
  | p, ps => p :: ps

/-- The pieces with neighbours of one kind put together. -/
def glue (ps : List (Piece κ ε α)) : List (Piece κ ε α) := ps.foldr push []

@[simp] theorem glue_nil : glue ([] : List (Piece κ ε α)) = [] := rfl

@[simp] theorem glue_cons (p : Piece κ ε α) (ps : List (Piece κ ε α)) :
    glue (p :: ps) = push p (glue ps) := rfl

theorem push_same (k : κ) (xs ys : List α) (ps : List (Piece κ ε α)) :
    push (.data k xs) (.data k ys :: ps) = .data k (xs ++ ys) :: ps := if_pos rfl

theorem push_other {k k' : κ} (h : k ≠ k') (xs ys : List α) (ps : List (Piece κ ε α)) :
    push (.data k xs) (.data k' ys :: ps) = .data k xs :: .data k' ys :: ps := if_neg h

theorem push_push (k : κ) (xs ys : List α) (ps : List (Piece κ ε α)) :
    push (.data k xs) (push (.data k ys) ps) = push (.data k (xs ++ ys)) ps := by
  cases ps with
  | nil => simp [push]
  | cons p ps =>
    cases p with
    | note e => simp [push]
    | data k' zs => by_cases h : k = k' <;> simp [push, h]

theorem glue_append (ps qs : List (Piece κ ε α)) : glue (ps ++ qs) = ps.foldr push (glue qs) := by
  rw [glue, List.foldr_append]
  rfl

theorem foldr_push_push (p : Piece κ ε α) (gs t : List (Piece κ ε α)) :
    (push p gs).foldr push t = push p (gs.foldr push t) := by
  cases p with
  | note e => cases gs <;> rfl
  | data k xs =>
    cases gs with
    | nil => rfl
    | cons g gs =>
      cases g with
      | note e => rfl
      | data k' ys =>
        by_cases h : k = k'
        · subst h
          rw [push_same, List.foldr_cons, List.foldr_cons, push_push]
        · rw [push_other h, List.foldr_cons]

theorem foldr_push_glue (ps t : List (Piece κ ε α)) :
    (glue ps).foldr push t = ps.foldr push t := by
  induction ps with
  | nil => rfl
  | cons p ps ih => rw [glue_cons, foldr_push_push, ih, List.foldr_cons]

theorem glue_append_congr {ps ps' qs qs' : List (Piece κ ε α)} (h : glue ps = glue ps')
    (h' : glue qs = glue qs') : glue (ps ++ qs) = glue (ps' ++ qs') := by
  rw [glue_append, glue_append, ← foldr_push_glue ps, h, foldr_push_glue, h']

end Glue

/-! ## Marks -/

/-- What the reader does: it sets a mark unless it is set, hands out a marked piece up to its place
or up to the element behind it, moves on over some elements, or gives a note. -/
inductive Act (κ ε α : Type) where
  | mark (kind : κ)
  | data (kind : κ)
  | dataThrough (kind : κ) (x : α)
  | advance (xs : List α)
  | note (e : ε)
deriving DecidableEq, Repr

abbrev Marks (κ α : Type) := κ → Option (List α)

namespace Marks

variable [DecidableEq κ]

def act (m : Marks κ α) : Act κ ε α → Marks κ α × List (Piece κ ε α)
  | .mark k => (Function.update m k (some ((m k).getD [])), [])
  | .data k =>
    match m k with
    | some xs => (Function.update m k none, [.data k xs])
    | none => (m, [])
  | .dataThrough k x =>
    match m k with
    | some xs => (Function.update m k none, [.data k (xs ++ [x])])
    | none => (m, [])
  | .advance xs => (fun k => (m k).map (· ++ xs), [])
  | .note e => (m, [.note e])

def run (m : Marks κ α) : List (Act κ ε α) → Marks κ α × List (Piece κ ε α)
  | [] => (m, [])
  | a :: as => (((m.act a).1.run as).1, (m.act a).2 ++ ((m.act a).1.run as).2)

theorem run_append (m : Marks κ α) (as bs : List (Act κ ε α)) :
    m.run (as ++ bs) = (((m.run as).1.run bs).1, (m.run as).2 ++ ((m.run as).1.run bs).2) := by
  induction as generalizing m with
  | nil => rfl
  | cons a as ih => simp only [List.cons_append, run, ih, List.append_assoc]

theorem run_advance_append (m : Marks κ α) (xs ys : List α) (as : List (Act κ ε α)) :
    m.run (.advance (xs ++ ys) :: as) = (m.act (.advance xs : Act κ ε α)).1.run
      (.advance ys :: as) := by
  have hmap : (fun k => (m k).map (· ++ (xs ++ ys))) =
      fun k => ((m k).map (· ++ xs)).map (· ++ ys) := by
    funext k
    cases m k <;> simp
  simp only [run, act, hmap]

/-- The pieces of the marks that are left at the end of the buffer, in the order `kinds`. -/
def flush (m : Marks κ α) (kinds : List κ) : List (Piece κ ε α) :=
  kinds.filterMap fun k => (m k).map (.data k)

end Marks

/-! ## Which mark is set -/

/-- At most the mark of the kind `o` is set, and it is if the kind is one of `must`. -/
structure Tracked (must : κ → Prop) (o : Option κ) (m : Marks κ α) : Prop where
  only : ∀ k, (m k).isSome → o = some k
  must : ∀ k, must k → o = some k → (m k).isSome

variable {must : κ → Prop} {o o' : Option κ} {m : Marks κ α}

theorem Tracked.eq_none (h : Tracked must none m) : m = fun _ => none := by
  funext k
  cases hk : m k with
  | none => rfl
  | some xs => exact absurd (h.only k (by simp [hk])) (by simp)

theorem tracked_none : Tracked must none (fun _ => none : Marks κ α) :=
  ⟨fun _ h => by simp at h, fun _ _ h => by simp at h⟩

theorem Tracked.length_filter (h : Tracked must o m) {kinds : List κ} (hn : kinds.Nodup) :
    (kinds.filter fun k => (m k).isSome).length ≤ 1 := by
  cases o with
  | none =>
    rw [h.eq_none]
    simp
  | some k =>
    have hsub : (kinds.filter fun k => (m k).isSome).Subset [k] := by
      intro k' hk'
      have := h.only k' (by simpa using (List.mem_filter.mp hk').2)
      simp [Option.some.inj this]
    exact ((hn.filter _).subperm hsub).length_le

@[simp] theorem flush_none (kinds : List κ) :
    Marks.flush (fun _ => none : Marks κ α) kinds = ([] : List (Piece κ ε α)) := by
  simp [Marks.flush]

section Track

variable [DecidableEq κ]

/-- The kind whose mark may be set after the acts, if `o` is the one before them. No mark is set over
another one, only its own piece is handed out, and there is no note while it is set. -/
def track : Option κ → List (Act κ ε α) → Option (Option κ)
  | o, [] => some o
  | o, .mark k :: as => if o = none ∨ o = some k then track (some k) as else none
  | o, .data k :: as => if o = some k then track none as else none
  | o, .dataThrough k _ :: as => if o = some k then track none as else none
  | o, .advance _ :: as => track o as
  | o, .note _ :: as => if o = none then track o as else none

theorem track_append (o : Option κ) (as bs : List (Act κ ε α)) :
    track o (as ++ bs) = (track o as).bind fun o' => track o' bs := by
  induction as generalizing o with
  | nil => rfl
  | cons a as ih =>
    cases a with
    | mark k =>
      simp only [List.cons_append, track, ih]
      split <;> rfl
    | data k =>
      simp only [List.cons_append, track, ih]
      split <;> rfl
    | dataThrough k x =>
      simp only [List.cons_append, track, ih]
      split <;> rfl
    | advance xs => simp only [List.cons_append, track, ih]
    | note e =>
      simp only [List.cons_append, track, ih]
      split <;> rfl

theorem Tracked.clear {k : κ} (h : Tracked must (some k) m) :
    Function.update m k none = fun _ => none := by
  funext k'
  by_cases hk : k' = k
  · rw [hk, Function.update_self]
  · rw [Function.update_of_ne hk]
    cases hm : m k' with
    | none => rfl
    | some xs => exact absurd (Option.some.inj (h.only k' (by simp [hm]))).symm hk

theorem Tracked.eq_none_of {k : κ} (h : Tracked must (some k) m) (hk : m k = none) :
    m = fun _ => none := by
  rw [← h.clear, ← hk, Function.update_eq_self]

theorem Tracked.act_data {k : κ} (h : Tracked must (some k) m) :
    (m.act (.data k : Act κ ε α)).1 = fun _ => none := by
  cases hk : m k with
  | none =>
    rw [h.eq_none_of hk]
    rfl
  | some xs => simpa [Marks.act, hk] using h.clear

theorem Tracked.act_dataThrough {k : κ} (h : Tracked must (some k) m) (x : α) :
    (m.act (.dataThrough k x : Act κ ε α)).1 = fun _ => none := by
  cases hk : m k with
  | none =>
    rw [h.eq_none_of hk]
    rfl
  | some xs => simpa [Marks.act, hk] using h.clear

theorem Tracked.act_mark {k : κ} (h : Tracked must o m) (ho : o = none ∨ o = some k) :
    Tracked must (some k) (m.act (.mark k : Act κ ε α)).1 := by
  refine ⟨fun k' hk' => ?_, fun k' _ hk' => ?_⟩
  · by_cases hkk : k' = k
    · rw [hkk]
    · replace hk' : (Function.update m k (some ((m k).getD [])) k').isSome := hk'
      rw [Function.update_of_ne hkk] at hk'
      rcases ho with rfl | rfl
      · exact absurd (h.only k' hk') (by simp)
      · exact h.only k' hk'
  · show (Function.update m k (some ((m k).getD [])) k').isSome
    rw [← Option.some.inj hk', Function.update_self]
    rfl

theorem Tracked.act_advance (h : Tracked must o m) (xs : List α) :
    Tracked must o (m.act (.advance xs : Act κ ε α)).1 :=
  ⟨fun k hk => h.only k (by simpa [Marks.act] using hk),
    fun k hm hk => by simpa [Marks.act] using h.must k hm hk⟩

theorem Tracked.run (h : Tracked must o m) {as : List (Act κ ε α)} (ht : track o as = some o') :
    Tracked must o' (m.run as).1 := by
  induction as generalizing o m with
  | nil =>
    cases ht
    exact h
  | cons a as ih =>
    cases a with
    | mark k =>
      simp only [track] at ht
      split at ht
      · exact ih (h.act_mark ‹_›) ht
      · cases ht
    | data k =>
      simp only [track] at ht
      split at ht
      · rename_i ho
        subst ho
        refine ih ?_ ht
        rw [h.act_data]
        exact tracked_none
      · cases ht
    | dataThrough k x =>
      simp only [track] at ht
      split at ht
      · rename_i ho
        subst ho
        refine ih ?_ ht
        rw [h.act_dataThrough]
        exact tracked_none
      · cases ht
    | advance xs => exact ih (h.act_advance xs) ht
    | note e =>
      simp only [track] at ht
      split at ht
      · exact ih h ht
      · cases ht

/-! ## Marks that were set in an earlier buffer -/

theorem flush_single {k : κ} {xs : List α} (h : Tracked must (some k) m) (hk : m k = some xs)
    {kinds : List κ} (hn : kinds.Nodup) (hmem : k ∈ kinds) :
    m.flush kinds = ([.data k xs] : List (Piece κ ε α)) := by
  have hother : ∀ k', k' ≠ k → m k' = none := by
    intro k' hk'
    have := congrFun h.clear k'
    rwa [Function.update_of_ne hk'] at this
  obtain ⟨before, behind, rfl⟩ := List.append_of_mem hmem
  have hnone : ∀ l : List κ, k ∉ l → Marks.flush m l = ([] : List (Piece κ ε α)) := by
    intro l hl
    refine List.filterMap_eq_nil_iff.mpr fun k' hk' => ?_
    rw [hother k' fun heq => hl (heq ▸ hk')]
    rfl
  have hn' := List.nodup_middle.mp hn
  have hnot : k ∉ before ++ behind := (List.nodup_cons.mp hn').1
  rw [List.mem_append, not_or] at hnot
  have hb := hnone before hnot.1
  have hb' := hnone behind hnot.2
  simp only [Marks.flush] at hb hb'
  simp [Marks.flush, List.filterMap_append, hb, hb', hk]

theorem run_mark {k : κ} {xs : List α} (h : m k = some xs) (as : List (Act κ ε α)) :
    m.run (.mark k :: as) = m.run as := by
  have hsame : Function.update m k (some ((m k).getD [])) = m := by
    rw [h, Option.getD_some, ← h, Function.update_eq_self]
  simp only [Marks.run, Marks.act, hsame, List.nil_append]

/-- The mark of `k` is set in both, in `m` with `xs` in front of what it has in `im`. -/
structure Ahead (k : κ) (xs : List α) (m im : Marks κ α) : Prop where
  tracked : Tracked (fun _ => True) (some k) m
  tracked' : Tracked (fun _ => True) (some k) im
  here : ∃ ys, im k = some ys ∧ m k = some (xs ++ ys)

theorem glue_data_append (k : κ) (xs ys : List α) (ps : List (Piece κ ε α)) :
    glue (.data k (xs ++ ys) :: ps) = glue (.data k xs :: .data k ys :: ps) := by
  rw [glue_cons, glue_cons, glue_cons, push_push]

/-- The acts hand out the same from both marks, up to the data that one of them has in front. -/
theorem Ahead.glue_run {k : κ} {xs : List α} {im : Marks κ α} (h : Ahead k xs m im)
    {as : List (Act κ ε α)} (ht : track (some k) as = some o') {kinds : List κ}
    (hn : kinds.Nodup) (hmem : k ∈ kinds) :
    glue ((m.run as).2 ++ (m.run as).1.flush kinds) =
      glue (.data k xs :: ((im.run as).2 ++ (im.run as).1.flush kinds)) := by
  induction as generalizing m im with
  | nil =>
    obtain ⟨ys, him, hm⟩ := h.here
    show glue (m.flush kinds) = glue (.data k xs :: im.flush kinds)
    rw [flush_single h.tracked hm hn hmem, flush_single h.tracked' him hn hmem, glue_data_append]
  | cons a as ih =>
    obtain ⟨ys, him, hm⟩ := h.here
    cases a with
    | mark k' =>
      simp only [track] at ht
      split at ht
      · rename_i hk
        obtain rfl : k = k' := by simpa using hk
        rw [run_mark hm, run_mark him]
        exact ih h ht
      · cases ht
    | data k' =>
      simp only [track] at ht
      split at ht
      · rename_i hk
        obtain rfl : k = k' := by simpa using hk
        simp only [Marks.run, h.tracked.act_data, h.tracked'.act_data]
        simp only [Marks.act, hm, him, List.cons_append, List.nil_append]
        exact glue_data_append k xs ys _
      · cases ht
    | dataThrough k' x =>
      simp only [track] at ht
      split at ht
      · rename_i hk
        obtain rfl : k = k' := by simpa using hk
        simp only [Marks.run, h.tracked.act_dataThrough, h.tracked'.act_dataThrough]
        simp only [Marks.act, hm, him, List.cons_append, List.nil_append, List.append_assoc]
        exact glue_data_append k xs (ys ++ [x]) _
      · cases ht
    | advance zs =>
      refine ih ⟨h.tracked.act_advance zs, h.tracked'.act_advance zs, ys ++ zs, ?_, ?_⟩ ht
      · simp [Marks.act, him]
      · simp [Marks.act, hm]
    | note e => simp [track] at ht

theorem glue_run_mark {k : κ} {xs : List α} (h : Tracked must (some k) m) (hm : m k = some xs)
    {as : List (Act κ ε α)} (ht : track (some k) as = some o') {kinds : List κ}
    (hn : kinds.Nodup) (hmem : k ∈ kinds) :
    glue ((m.run (.mark k :: as)).2 ++ (m.run (.mark k :: as)).1.flush kinds) =
      glue (.data k xs :: ((Marks.run (fun _ => none) (.mark k :: as)).2 ++
        (Marks.run (fun _ => none) (.mark k :: as)).1.flush kinds)) := by
  have hm' : Tracked (fun _ => True) (some k) m := by
    refine ⟨h.only, fun k' _ hk' => ?_⟩
    rw [← Option.some.inj hk', hm]
    rfl
  rw [run_mark hm]
  refine Ahead.glue_run ⟨hm', tracked_none.act_mark (.inl rfl), [], ?_, ?_⟩ ht hn hmem
  · simp [Marks.act]
  · rw [hm, List.append_nil]

end Track

end Pieces
