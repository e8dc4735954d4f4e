import CoSocket.Lib.Pairs

/-!
# Items

Items separated by `amp`, each a key with a value behind `eq` or a key alone, and what `Pairs.read`
makes of them. It looks for `eq` before it looks for `amp`, so that only the last item may come
without `eq`: `read_joined` says when the items are read one by one, and `distinct_of_subset` that
with distinct keys there is no other way to read all of them.
-/

namespace Pairs

variable {α : Type*}

/-- The text of an item. -/
def itemText (eq : α) : List α × Option (List α) → List α
  | (key, some value) => text eq (key, value)
  | (key, none) => key

/-- The item as a pair: a missing value is an empty one. -/
def itemPair (i : List α × Option (List α)) : List α × List α := (i.1, i.2.getD [])

/-- The texts of the items, with an `amp` between any two of them. -/
def joined (eq amp : α) (is : List (List α × Option (List α))) : List α :=
  [amp].intercalate (is.map (itemText eq))

/-- Every item is read by itself: all but the last have an `eq`, and no delimiter stands where it is
taken for one. -/
structure Distinct (eq amp : α) (is : List (List α × Option (List α))) : Prop where
  closed : ∀ i ∈ is.dropLast, i.2 ≠ none
  faithful : ∀ i ∈ is, ∀ value, i.2 = some value → Faithful eq amp (i.1, value)
  bare : ∀ i ∈ is, i.2 = none → eq ∉ i.1

variable {eq amp : α} {is : List (List α × Option (List α))}

theorem joined_cons_cons (i j : List α × Option (List α)) (is : List (List α × Option (List α))) :
    joined eq amp (i :: j :: is) = itemText eq i ++ amp :: joined eq amp (j :: is) := by
  simp [joined, List.intercalate_cons_cons]

theorem joined_singleton (i : List α × Option (List α)) : joined eq amp [i] = itemText eq i :=
  List.intercalate_singleton

theorem joined_eq_written (h : ∀ i ∈ is, i.2 ≠ none) :
    joined eq amp is = written eq amp (is.map itemPair) := by
  have hone : ∀ i : List α × Option (List α), i.2 ≠ none →
      itemText eq i = text eq (itemPair i) := by
    rintro ⟨key, _ | value⟩ hi
    · exact absurd rfl hi
    · rfl
  induction is with
  | nil => rfl
  | cons i is ih =>
    have hi := hone i (h i List.mem_cons_self)
    cases is with
    | nil => simp [joined_singleton, written, hi]
    | cons j is =>
      rw [joined_cons_cons, ih fun k hk => h k (List.mem_cons_of_mem _ hk), hi]
      simp only [List.map_cons, written_cons_cons]

theorem exists_joined_append (is : List (List α × Option (List α)))
    (l : List α × Option (List α)) : ∃ s, joined eq amp (is ++ [l]) = s ++ itemText eq l := by
  induction is with
  | nil => exact ⟨[], joined_singleton l⟩
  | cons i is ih =>
    obtain ⟨s, hs⟩ := ih
    obtain ⟨j, js, hjs⟩ := List.exists_cons_of_ne_nil (l := is ++ [l]) (by simp)
    refine ⟨itemText eq i ++ amp :: s, ?_⟩
    rw [List.cons_append, hjs, joined_cons_cons, ← hjs, hs]
    simp

/-! ## Weights -/

/-- The items without `eq`. -/
def bareCount (is : List (List α × Option (List α))) : Nat := is.countP (·.2.isNone)

/-- A pair weighs as much as the text of its item and the `amp` behind it, and one more when the
`eq` is missing. -/
theorem sum_weight_items (h : is ≠ []) :
    ((is.map itemPair).map weight).sum = (joined eq amp is).length + 1 + bareCount is := by
  have hone : ∀ i : List α × Option (List α),
      weight (itemPair i) = (itemText eq i).length + 1 + bareCount [i] := by
    rintro ⟨key, _ | value⟩
    · simp [weight, itemPair, itemText, bareCount]
    · simp [weight, itemPair, itemText, bareCount, text]
      omega
  induction is with
  | nil => exact absurd rfl h
  | cons i is ih =>
    cases is with
    | nil => simp [joined_singleton, hone]
    | cons j is =>
      have hcount : bareCount (i :: j :: is) = bareCount [i] + bareCount (j :: is) := by
        rw [bareCount, bareCount, bareCount, ← List.countP_append]
        rfl
      rw [List.map_cons, List.map_cons, List.sum_cons, ih (by simp), hone, joined_cons_cons, hcount,
        List.length_append, List.length_cons]
      omega

theorem ne_none_of_bareCount (h : bareCount is = 0) {i : List α × Option (List α)} (hi : i ∈ is) :
    i.2 ≠ none := by
  have hnone := List.countP_eq_zero.mp h i hi
  simpa using hnone

theorem Distinct.dropEmpty {key : List α} (h : Distinct eq amp (is ++ [(key, some [])]))
    (hcount : bareCount is = 0) (hkey : eq ∉ key) : Distinct eq amp (is ++ [(key, none)]) := by
  refine ⟨fun i hi => ?_, fun i hi value hvalue => ?_, fun i hi hnone => ?_⟩
  · rw [List.dropLast_concat] at hi
    exact ne_none_of_bareCount hcount hi
  · rcases List.mem_append.mp hi with hi | hi
    · exact h.faithful i (by simp [hi]) value hvalue
    · cases List.mem_singleton.mp hi
      cases hvalue
  · rcases List.mem_append.mp hi with hi | hi
    · exact absurd hnone (ne_none_of_bareCount hcount hi)
    · cases List.mem_singleton.mp hi
      exact hkey

/-! ## Reading -/

variable [DecidableEq α]

theorem sum_weight_read_value (hne : eq ≠ amp) {value : List α} (hvalue : amp ∉ value)
    (s : List α) :
    ((read eq amp (s ++ eq :: value)).map weight).sum ≤ (s ++ eq :: value).length + 1 := by
  induction hn : s.length using Nat.strong_induction_on generalizing s with
  | _ n ih =>
    by_cases hs : eq ∈ s
    · obtain ⟨k1, k2, rfl, hk1⟩ := List.eq_append_cons_of_mem hs
      by_cases hk2 : amp ∈ k2
      · obtain ⟨x, y, rfl, hx⟩ := List.eq_append_cons_of_mem hk2
        have hy : y.length < n := by
          simp only [List.length_append, List.length_cons] at hn
          omega
        have hsplit : k1 ++ eq :: (x ++ amp :: y) ++ eq :: value =
            k1 ++ eq :: (x ++ amp :: (y ++ eq :: value)) := by simp
        have hpair := sum_weight_pairOf k1 x
        have hrest := ih _ hy y rfl
        rw [hsplit, read_value hk1 hx, List.map_append, List.sum_append]
        simp only [List.length_append, List.length_cons] at hrest ⊢
        omega
      · have hv : amp ∉ k2 ++ eq :: value := by
          simp [hk2, hvalue, hne.symm]
        have hsplit : k1 ++ eq :: k2 ++ eq :: value = k1 ++ eq :: (k2 ++ eq :: value) := by simp
        have hpair := sum_weight_pairOf k1 (k2 ++ eq :: value)
        rw [hsplit, read_last hk1 hv]
        simp only [List.length_append, List.length_cons] at hpair ⊢
        omega
    · have hpair := sum_weight_pairOf s value
      rw [read_last hs hvalue]
      simp only [List.length_append, List.length_cons]
      omega

theorem read_bare {key : List α} (h : eq ∉ key) : read eq amp key = pairOf key [] := by
  by_cases hnil : key = []
  · rw [hnil, read_nil]
    rfl
  · rw [read_ne_nil hnil, takeWhile_ne_self h, List.drop_eq_nil_of_le (by omega),
      List.takeWhile_nil, List.drop_nil, read_nil, List.append_nil]

theorem read_itemText (hne : eq ≠ amp) {i : List α × Option (List α)}
    (hf : ∀ value, i.2 = some value → Faithful eq amp (i.1, value)) (hb : i.2 = none → eq ∉ i.1)
    (hempty : i.1 = [] → i.2.getD [] = []) :
    read eq amp (itemText eq i) = pairOf i.1 (i.2.getD []) := by
  obtain ⟨key, _ | value⟩ := i
  · exact read_bare (hb rfl)
  · by_cases hkey : key = []
    · obtain rfl : value = [] := hempty hkey
      rw [hkey]
      show read eq amp ([] ++ eq :: []) = _
      exact read_last List.not_mem_nil List.not_mem_nil
    · rw [itemText, read_text_self hne hkey (hf value rfl)]
      exact (pairOf_key hkey value).symm

theorem read_joined_append (hne : eq ≠ amp) {l : List α × Option (List α)}
    (h : ∀ i ∈ is, ∃ value, i.2 = some value ∧ amp ∉ value) :
    read eq amp (joined eq amp (is ++ [l])) =
      (is.flatMap fun i => read eq amp (itemText eq i)) ++ read eq amp (itemText eq l) := by
  induction is with
  | nil => rw [List.nil_append, joined_singleton, List.flatMap_nil, List.nil_append]
  | cons i is ih =>
    obtain ⟨value, hi, hvalue⟩ := h i List.mem_cons_self
    have htext : itemText eq i = i.1 ++ eq :: value := by
      obtain ⟨key, v⟩ := i
      obtain rfl : v = some value := hi
      rfl
    have hcons : joined eq amp (i :: is ++ [l]) =
        i.1 ++ eq :: (value ++ amp :: joined eq amp (is ++ [l])) := by
      obtain ⟨j, js, hjs⟩ := List.exists_cons_of_ne_nil (l := is ++ [l]) (by simp)
      rw [List.cons_append, hjs, joined_cons_cons, htext]
      simp
    rw [hcons, read_text_append hne hvalue, ih fun k hk => h k (List.mem_cons_of_mem _ hk),
      List.flatMap_cons, htext, List.append_assoc]

theorem read_joined (hne : eq ≠ amp) (h : Distinct eq amp is)
    (hempty : ∀ i ∈ is, i.1 = [] → i.2.getD [] = []) :
    read eq amp (joined eq amp is) = is.flatMap fun i => pairOf i.1 (i.2.getD []) := by
  have hread : ∀ i ∈ is, read eq amp (itemText eq i) = pairOf i.1 (i.2.getD []) := fun i hi =>
    read_itemText hne (h.faithful i hi) (h.bare i hi) (hempty i hi)
  obtain rfl | ⟨is, l, rfl⟩ := is.eq_nil_or_concat'
  · exact read_nil
  · have hvalues : ∀ i ∈ is, ∃ value, i.2 = some value ∧ amp ∉ value := by
      intro i hi
      have hne := h.closed i (by simpa using hi)
      obtain ⟨value, hvalue⟩ := Option.ne_none_iff_exists'.mp hne
      exact ⟨value, hvalue, (h.faithful i (by simp [hi]) value hvalue).1⟩
    rw [read_joined_append hne hvalues, List.flatMap_append, List.flatMap_singleton,
      hread l (by simp)]
    congr 1
    exact List.flatMap_congr fun i hi => hread i (by simp [hi])

/-! ## Items with distinct keys -/

/-- When the text ends in a value and every pair is read, each item has an `eq`: without one it
would weigh too much. -/
theorem bareCount_of_value (hne : eq ≠ amp) (hnd : (is.map itemPair).Nodup)
    (hsub : ∀ p ∈ is.map itemPair, p ∈ read eq amp (joined eq amp is)) {s value : List α}
    (hvalue : amp ∉ value) (hs : joined eq amp is = s ++ eq :: value) : bareCount is = 0 := by
  have his : is ≠ [] := by
    rintro rfl
    simp [joined] at hs
  have hsum : ((is.map itemPair).map weight).sum = (joined eq amp is).length + 1 + bareCount is :=
    sum_weight_items his
  have hle := sum_weight_le_read hnd hsub
  have hread := sum_weight_read_value hne hvalue s
  rw [← hs] at hread
  omega

theorem bareCount_le_one (hnd : (is.map itemPair).Nodup)
    (hsub : ∀ p ∈ is.map itemPair, p ∈ read eq amp (joined eq amp is)) : bareCount is ≤ 1 := by
  by_cases his : is = []
  · rw [his]
    exact Nat.zero_le 1
  · have hsum : ((is.map itemPair).map weight).sum =
        (joined eq amp is).length + 1 + bareCount is := sum_weight_items his
    have hle := sum_weight_le_of_subset hnd hsub
    omega

theorem read_joined_bare (hne : eq ≠ amp) {key : List α} (hkey : eq ∉ key)
    (h : ∀ i ∈ is, ∃ value, i.2 = some value ∧ amp ∉ value) :
    read eq amp (joined eq amp (is ++ [(key, none)])) =
      read eq amp (joined eq amp (is ++ [(key, some [])])) := by
  rw [read_joined_append hne h, read_joined_append hne h]
  congr 1
  rw [itemText, itemText, text, read_bare hkey, read_last hkey List.not_mem_nil]

theorem distinct_of_values (hne : eq ≠ amp) (hvalues : ∀ i ∈ is, i.2 ≠ none)
    (hkeys : ∀ i ∈ is, i.1 ≠ [])
    (hsub : ∀ p ∈ is.map itemPair, p ∈ read eq amp (joined eq amp is)) :
    Distinct eq amp is := by
  rw [joined_eq_written hvalues] at hsub
  have hkeys' : ∀ p ∈ is.map itemPair, p.1 ≠ [] := by
    intro p hp
    obtain ⟨i, hi, rfl⟩ := List.mem_map.mp hp
    exact hkeys i hi
  refine ⟨fun i hi => hvalues i (List.mem_of_mem_dropLast hi), fun i hi value hvalue => ?_,
    fun i hi hnone => absurd hnone (hvalues i hi)⟩
  have hf := faithful_of_subset hne hkeys' hsub (List.mem_map_of_mem hi)
  rwa [itemPair, hvalue] at hf

section Bare

variable {init : List (List α × Option (List α))} {key : List α}

theorem bareCount_of_bare (hnd : ((init ++ [(key, none)]).map itemPair).Nodup)
    (hsub : ∀ p ∈ (init ++ [(key, none)]).map itemPair,
      p ∈ read eq amp (joined eq amp (init ++ [(key, none)]))) : bareCount init = 0 := by
  have hle := bareCount_le_one hnd hsub
  rw [bareCount, List.countP_append] at hle
  rw [bareCount]
  simp only [List.countP_singleton, Option.isNone_none, if_true] at hle
  omega

/-- There is no `eq` in the key of a bare last item: otherwise the text would end in a value. -/
theorem notMem_of_bare (hne : eq ≠ amp) (hnd : ((init ++ [(key, none)]).map itemPair).Nodup)
    (hsub : ∀ p ∈ (init ++ [(key, none)]).map itemPair,
      p ∈ read eq amp (joined eq amp (init ++ [(key, none)]))) : eq ∉ key := by
  intro heq
  have hlast : (key, none) ∈ init ++ [(key, none)] := by simp
  have hamp := ((mem_read (hsub (key, []) (List.mem_map_of_mem hlast))).2 heq).1
  obtain ⟨s, hs⟩ : ∃ s, joined eq amp (init ++ [(key, none)]) = s ++ itemText eq (key, none) :=
    exists_joined_append init _
  obtain ⟨x, y, rfl, -⟩ := List.eq_append_cons_of_mem heq
  have hy : amp ∉ y := fun hy => hamp (by simp [hy])
  have hzero := bareCount_of_value hne hnd hsub hy (s := s ++ x) (by rw [hs]; simp [itemText])
  exact ne_none_of_bareCount hzero hlast rfl

end Bare

theorem distinct_of_subset (hne : eq ≠ amp) (hkeys : ∀ i ∈ is, i.1 ≠ [])
    (hnd : (is.map itemPair).Nodup)
    (hsub : ∀ p ∈ is.map itemPair, p ∈ read eq amp (joined eq amp is)) :
    Distinct eq amp is := by
  have hmem : ∀ i ∈ is, amp ∉ i.2.getD [] := fun i hi =>
    (mem_read (hsub (itemPair i) (List.mem_map_of_mem hi))).1
  obtain rfl | ⟨init, l, rfl⟩ := is.eq_nil_or_concat'
  · exact ⟨by simp, by simp, by simp⟩
  have hlast : l ∈ init ++ [l] := by simp
  obtain ⟨key, _ | value⟩ := l
  · have hcount := bareCount_of_bare hnd hsub
    have hkey := notMem_of_bare hne hnd hsub
    have hinit : ∀ i ∈ init, ∃ value, i.2 = some value ∧ amp ∉ value := by
      intro i hi
      obtain ⟨value, hvalue⟩ := Option.ne_none_iff_exists'.mp (ne_none_of_bareCount hcount hi)
      have hamp := hmem i (by simp [hi])
      rw [hvalue] at hamp
      exact ⟨value, hvalue, hamp⟩
    -- the text reads as if the last item had an empty value, and then all items have one
    refine (distinct_of_values hne ?_ ?_ ?_).dropEmpty hcount hkey
    · intro i hi
      rcases List.mem_append.mp hi with hi | hi
      · exact ne_none_of_bareCount hcount hi
      · cases List.mem_singleton.mp hi
        simp
    · intro i hi
      rcases List.mem_append.mp hi with hi | hi
      · exact hkeys i (by simp [hi])
      · cases List.mem_singleton.mp hi
        exact hkeys (key, none) hlast
    · rw [← read_joined_bare hne hkey hinit]
      simpa [itemPair] using hsub
  · obtain ⟨s, hs⟩ : ∃ s, joined eq amp (init ++ [(key, some value)]) =
        s ++ itemText eq (key, some value) := exists_joined_append init _
    have hzero := bareCount_of_value hne hnd hsub (hmem _ hlast) (s := s ++ key)
      (by rw [hs]; simp [itemText, text])
    exact distinct_of_values hne (fun i hi => ne_none_of_bareCount hzero hi) hkeys hsub

end Pairs
