import Mathlib

/-!
# Pairs

Pairs of a key and a value in one sequence of symbols. A key is read up to the first symbol `eq`, a
value up to the first symbol `amp`, and a value that comes without a key is taken for a key with an
empty value. `written` puts the pairs down one after the other, without any escapes.

`read_written_self` and `faithful_of_subset` say together which lists of pairs are read as they were
written: those whose values have no `amp` and whose keys have no `eq` in them, but for keys of
nothing else.
-/

namespace Pairs

variable {α : Type*}

/-- What one round of reading adds. -/
def pairOf (key value : List α) : List (List α × List α) :=
  if key ≠ [] then [(key, value)] else if value ≠ [] then [(value, [])] else []

def read [DecidableEq α] (eq amp : α) : List α → List (List α × List α)
  | [] => []
  | a :: s =>
    let key := (a :: s).takeWhile (· ≠ eq)
    let behind := (a :: s).drop (key.length + 1)
    let value := behind.takeWhile (· ≠ amp)
    pairOf key value ++ read eq amp (behind.drop (value.length + 1))
termination_by s => s.length
decreasing_by
  simp only [List.length_drop, List.length_cons]
  omega

/-- The text of a pair. -/
def text (eq : α) (p : List α × List α) : List α := p.1 ++ eq :: p.2

/-- The texts of the pairs, with an `amp` between any two of them. -/
def written (eq amp : α) : List (List α × List α) → List α
  | [] => []
  | p :: ps => text eq p ++ ps.flatMap fun q => amp :: text eq q

/-- The pair is read as it is written. -/
def Faithful (eq amp : α) (p : List α × List α) : Prop :=
  amp ∉ p.2 ∧ (eq ∉ p.1 ∨ (∀ a ∈ p.1, a = eq) ∧ p.2 = [])

/-- The symbols of a pair, and the two that stand behind the key and the value. -/
def weight (p : List α × List α) : Nat := p.1.length + p.2.length + 2

variable {eq amp : α}

/-! ## The text of pairs -/

theorem written_cons_cons (p q : List α × List α) (ps : List (List α × List α)) :
    written eq amp (p :: q :: ps) = text eq p ++ amp :: written eq amp (q :: ps) := by
  simp [written]

theorem sum_weight_written {ps : List (List α × List α)} (h : ps ≠ []) :
    (ps.map weight).sum = (written eq amp ps).length + 1 := by
  induction ps with
  | nil => exact absurd rfl h
  | cons p ps ih =>
    cases ps with
    | nil => simp [written, text, weight, Nat.add_assoc]
    | cons q ps =>
      rw [List.map_cons, List.sum_cons, ih (by simp), written_cons_cons]
      simp only [weight, text, List.length_append, List.length_cons]
      omega

theorem mem_written {ps : List (List α × List α)} {a : α} (h : a ∈ written eq amp ps) :
    a = eq ∨ a = amp ∨ ∃ p ∈ ps, a ∈ p.1 ∨ a ∈ p.2 := by
  induction ps with
  | nil => simp [written] at h
  | cons p ps ih =>
    have htext : a ∈ text eq p → a = eq ∨ a ∈ p.1 ∨ a ∈ p.2 := by
      simp only [text, List.mem_append, List.mem_cons]
      tauto
    cases ps with
    | nil =>
      rw [written, List.flatMap_nil, List.append_nil] at h
      exact (htext h).imp_right fun h => .inr ⟨p, List.mem_cons_self, h⟩
    | cons q ps =>
      rw [written_cons_cons, List.mem_append, List.mem_cons] at h
      rcases h with h | h | h
      · exact (htext h).imp_right fun h => .inr ⟨p, List.mem_cons_self, h⟩
      · exact .inr (.inl h)
      · refine (ih h).imp_right (Or.imp_right ?_)
        rintro ⟨r, hr, hmem⟩
        exact ⟨r, List.mem_cons_of_mem _ hr, hmem⟩

/-- Moving the last symbol to the front again and again brings each symbol to the end once, so that
each of them is `eq`. -/
theorem eq_of_rotated {ps : List (List α × List α)}
    (h : ∀ p ∈ ps, eq ∈ p.1 → ∃ t, p = (t ++ [eq], []) ∧ (eq :: t, []) ∈ ps)
    {a : α} (y : List α) :
    ∀ x : List α, (x ++ a :: y, []) ∈ ps → eq ∈ x ++ a :: y → a = eq := by
  induction y using List.reverseRecOn with
  | nil =>
    intro x hmem heq
    obtain ⟨t, ht, -⟩ := h _ hmem heq
    have hkey : x ++ [a] = t ++ [eq] := congrArg Prod.fst ht
    exact (List.append_inj' hkey rfl).2 |> List.singleton_inj.mp
  | append_singleton y b ih =>
    intro x hmem heq
    obtain ⟨t, ht, hrot⟩ := h _ hmem heq
    have hkey : (x ++ a :: y) ++ [b] = t ++ [eq] := by
      simpa using congrArg Prod.fst ht
    obtain rfl := (List.append_inj' hkey rfl).1
    exact ih (eq :: x) hrot (by simp)

/-! ## One round -/

theorem pairOf_key {key : List α} (h : key ≠ []) (value : List α) :
    pairOf key value = [(key, value)] := if_pos h

theorem pairOf_nil {value : List α} (h : value ≠ []) : pairOf [] value = [(value, [])] := by
  rw [pairOf, if_neg (by simp), if_pos h]

theorem mem_pairOf {key value : List α} {p : List α × List α} (h : p ∈ pairOf key value) :
    (key ≠ [] ∧ p = (key, value)) ∨ (key = [] ∧ value ≠ [] ∧ p = (value, [])) := by
  by_cases hkey : key = []
  · subst hkey
    by_cases hvalue : value = []
    · subst hvalue
      simp [pairOf] at h
    · rw [pairOf_nil hvalue, List.mem_singleton] at h
      exact .inr ⟨rfl, hvalue, h⟩
  · rw [pairOf_key hkey, List.mem_singleton] at h
    exact .inl ⟨hkey, h⟩

theorem sum_weight_pairOf (key value : List α) :
    ((pairOf key value).map weight).sum ≤ key.length + value.length + 2 := by
  by_cases hkey : key = []
  · subst hkey
    by_cases hvalue : value = []
    · subst hvalue
      simp [pairOf]
    · simp [pairOf_nil hvalue, weight]
  · simp [pairOf_key hkey, weight]

variable [DecidableEq α]

theorem takeWhile_ne_append {a : α} {l : List α} (h : a ∉ l) (rest : List α) :
    (l ++ a :: rest).takeWhile (· ≠ a) = l := by
  rw [List.takeWhile_append_of_pos, List.takeWhile_cons_of_neg (by simp), List.append_nil]
  intro b hb
  exact decide_eq_true fun hab => h (hab ▸ hb)

theorem takeWhile_ne_self {a : α} {l : List α} (h : a ∉ l) : l.takeWhile (· ≠ a) = l := by
  rw [List.takeWhile_eq_self_iff]
  intro b hb
  exact decide_eq_true fun hab => h (hab ▸ hb)

theorem notMem_takeWhile_ne (a : α) (l : List α) : a ∉ l.takeWhile (· ≠ a) := by
  intro h
  simpa using List.mem_takeWhile_imp h

theorem read_nil : read eq amp [] = [] := by
  rw [read]

theorem read_ne_nil {s : List α} (h : s ≠ []) :
    read eq amp s = pairOf (s.takeWhile (· ≠ eq))
        ((s.drop ((s.takeWhile (· ≠ eq)).length + 1)).takeWhile (· ≠ amp)) ++
      read eq amp ((s.drop ((s.takeWhile (· ≠ eq)).length + 1)).drop
        (((s.drop ((s.takeWhile (· ≠ eq)).length + 1)).takeWhile (· ≠ amp)).length + 1)) := by
  cases s with
  | nil => exact absurd rfl h
  | cons a s => rw [read]

theorem read_key {key : List α} (hkey : eq ∉ key) (s : List α) :
    read eq amp (key ++ eq :: s) = pairOf key (s.takeWhile (· ≠ amp)) ++
      read eq amp (s.drop ((s.takeWhile (· ≠ amp)).length + 1)) := by
  have hdrop : (key ++ eq :: s).drop (key.length + 1) = s := by simp
  rw [read_ne_nil (by simp), takeWhile_ne_append hkey, hdrop]

theorem read_value {key value : List α} (hkey : eq ∉ key) (hvalue : amp ∉ value) (rest : List α) :
    read eq amp (key ++ eq :: (value ++ amp :: rest)) = pairOf key value ++ read eq amp rest := by
  have hdrop : (value ++ amp :: rest).drop (value.length + 1) = rest := by simp
  rw [read_key hkey, takeWhile_ne_append hvalue, hdrop]

theorem read_last {key value : List α} (hkey : eq ∉ key) (hvalue : amp ∉ value) :
    read eq amp (key ++ eq :: value) = pairOf key value := by
  rw [read_key hkey, takeWhile_ne_self hvalue, List.drop_eq_nil_of_le (by omega), read_nil,
    List.append_nil]

/-! ## What is read -/

theorem mem_read {s : List α} {p : List α × List α} (h : p ∈ read eq amp s) :
    amp ∉ p.2 ∧ (eq ∈ p.1 → amp ∉ p.1 ∧ p.2 = []) := by
  fun_induction read eq amp s with
  | case1 => simp at h
  | case2 a s key behind value ih =>
    rcases List.mem_append.mp h with h | h
    · rcases mem_pairOf h with ⟨-, rfl⟩ | ⟨-, -, rfl⟩
      · exact ⟨notMem_takeWhile_ne amp _, fun heq => absurd heq (notMem_takeWhile_ne eq _)⟩
      · exact ⟨List.not_mem_nil, fun _ => ⟨notMem_takeWhile_ne amp _, rfl⟩⟩
    · exact ih h

theorem mem_of_mem_read {s : List α} {p : List α × List α} (h : p ∈ read eq amp s) {b : α}
    (hb : b ∈ p.1 ∨ b ∈ p.2) : b ∈ s := by
  fun_induction read eq amp s with
  | case1 => simp at h
  | case2 a s key behind value ih =>
    have hkey : ∀ {b}, b ∈ key → b ∈ a :: s := fun h => List.takeWhile_subset _ h
    have hvalue : ∀ {b}, b ∈ value → b ∈ a :: s := fun h =>
      List.drop_subset _ _ (List.takeWhile_subset _ h)
    rcases List.mem_append.mp h with h | h
    · rcases mem_pairOf h with ⟨-, rfl⟩ | ⟨-, -, rfl⟩
      · exact hb.elim hkey hvalue
      · exact hb.elim hvalue fun h => absurd h List.not_mem_nil
    · exact List.drop_subset _ _ (List.drop_subset _ _ (ih h))

/-- Each round moves on over the pair it adds and the two symbols behind its parts; only in the last
one these may be missing. -/
theorem sum_weight_read (s : List α) : ((read eq amp s).map weight).sum ≤ s.length + 2 := by
  fun_induction read eq amp s with
  | case1 => simp
  | case2 a s key behind value ih =>
    have hkey : key.length ≤ (a :: s).length := (List.takeWhile_prefix _).length_le
    have hvalue : value.length ≤ behind.length := (List.takeWhile_prefix _).length_le
    have hbehind : behind.length = (a :: s).length - (key.length + 1) := List.length_drop
    have hpair := sum_weight_pairOf key value
    rw [List.map_append, List.sum_append]
    by_cases hrest : behind.drop (value.length + 1) = []
    · rw [hrest, read_nil, List.map_nil, List.sum_nil]
      omega
    · have hpos := List.length_pos_iff.mpr hrest
      rw [List.length_drop] at ih hpos
      omega

theorem sum_weight_le_read {ps : List (List α × List α)} {s : List α} (hnd : ps.Nodup)
    (hsub : ∀ p ∈ ps, p ∈ read eq amp s) :
    (ps.map weight).sum ≤ ((read eq amp s).map weight).sum := by
  obtain ⟨qs, hperm, hsubl⟩ := hnd.subperm hsub
  calc (ps.map weight).sum
      = (qs.map weight).sum := (hperm.map weight).sum_eq.symm
    _ ≤ ((read eq amp s).map weight).sum := (hsubl.map weight).sum_le_sum fun _ _ => Nat.zero_le _

theorem sum_weight_le_of_subset {ps : List (List α × List α)} {s : List α} (hnd : ps.Nodup)
    (hsub : ∀ p ∈ ps, p ∈ read eq amp s) : (ps.map weight).sum ≤ s.length + 2 :=
  Nat.le_trans (sum_weight_le_read hnd hsub) (sum_weight_read s)

/-! ## What was written -/

theorem read_text_append (hne : eq ≠ amp) {value : List α} (hvalue : amp ∉ value)
    (rest : List α) (key : List α) :
    read eq amp (key ++ eq :: (value ++ amp :: rest)) =
      read eq amp (key ++ eq :: value) ++ read eq amp rest := by
  induction hn : key.length using Nat.strong_induction_on generalizing key with
  | _ n ih =>
    by_cases hkey : eq ∈ key
    · obtain ⟨k1, k2, rfl, hk1⟩ := List.eq_append_cons_of_mem hkey
      by_cases hk2 : amp ∈ k2
      · -- the value ends inside the key, and the rest of the key is read as another pair
        obtain ⟨x, y, rfl, hx⟩ := List.eq_append_cons_of_mem hk2
        have hy : y.length < n := by
          simp only [List.length_append, List.length_cons] at hn
          omega
        have hleft : k1 ++ eq :: (x ++ amp :: y) ++ eq :: (value ++ amp :: rest) =
            k1 ++ eq :: (x ++ amp :: (y ++ eq :: (value ++ amp :: rest))) := by simp
        have hright : k1 ++ eq :: (x ++ amp :: y) ++ eq :: value =
            k1 ++ eq :: (x ++ amp :: (y ++ eq :: value)) := by simp
        rw [hleft, hright, read_value hk1 hx, read_value hk1 hx, ih _ hy y rfl, List.append_assoc]
      · have hv : amp ∉ k2 ++ eq :: value := by
          simp [hk2, hvalue, hne.symm]
        have hleft : k1 ++ eq :: k2 ++ eq :: (value ++ amp :: rest) =
            k1 ++ eq :: ((k2 ++ eq :: value) ++ amp :: rest) := by simp
        have hright : k1 ++ eq :: k2 ++ eq :: value = k1 ++ eq :: (k2 ++ eq :: value) := by simp
        rw [hleft, hright, read_value hk1 hv, read_last hk1 hv]
    · rw [read_value hkey hvalue, read_last hkey hvalue]

theorem read_written (hne : eq ≠ amp) {ps : List (List α × List α)}
    (hps : ∀ p ∈ ps, amp ∉ p.2) :
    read eq amp (written eq amp ps) = ps.flatMap fun p => read eq amp (text eq p) := by
  induction ps with
  | nil => exact read_nil
  | cons p ps ih =>
    cases ps with
    | nil => simp [written]
    | cons q ps =>
      have hp := hps p List.mem_cons_self
      have hsplit : text eq p ++ amp :: written eq amp (q :: ps) =
          p.1 ++ eq :: (p.2 ++ amp :: written eq amp (q :: ps)) := by simp [text]
      rw [written_cons_cons, hsplit, read_text_append hne hp,
        ih fun r hr => hps r (List.mem_cons_of_mem _ hr), List.flatMap_cons]
      rfl

theorem read_text_self {p : List α × List α} (hne : eq ≠ amp) (hkey : p.1 ≠ [])
    (h : Faithful eq amp p) : read eq amp (text eq p) = [p] := by
  obtain ⟨hvalue, heq | ⟨hall, hnil⟩⟩ := h
  · rw [text, read_last heq hvalue, pairOf_key hkey]
  · -- the first `eq` is taken for the end of an empty key, and the last one for a part of the value
    obtain ⟨key, value⟩ := p
    obtain rfl : value = [] := hnil
    have hrep : key = List.replicate key.length eq := List.eq_replicate_iff.mpr ⟨rfl, hall⟩
    have hrot : text eq (key, []) = [] ++ eq :: key := by
      rw [text, hrep, List.nil_append, ← List.replicate_succ, ← List.replicate_succ']
    have hamp : amp ∉ key := fun hmem => hne (hall amp hmem).symm
    rw [hrot, read_last List.not_mem_nil hamp, pairOf_nil hkey]

/-- Pairs that are faithful, each by itself, are read as they were written. -/
theorem read_written_self (hne : eq ≠ amp) {ps : List (List α × List α)}
    (hkeys : ∀ p ∈ ps, p.1 ≠ []) (h : ∀ p ∈ ps, Faithful eq amp p) :
    read eq amp (written eq amp ps) = ps := by
  rw [read_written hne fun p hp => (h p hp).1]
  induction ps with
  | nil => rfl
  | cons p ps ih =>
    rw [List.flatMap_cons, read_text_self hne (hkeys p List.mem_cons_self) (h p List.mem_cons_self),
      ih (fun q hq => hkeys q (List.mem_cons_of_mem _ hq))
        fun q hq => h q (List.mem_cons_of_mem _ hq), List.singleton_append]

section Subset

variable {ps : List (List α × List α)}

/-- When every pair is read somewhere, one with `eq` in its key is read where the pair is written
whose key has the last `eq` of it at the front. -/
theorem rotated_of_subset (hne : eq ≠ amp) (hkeys : ∀ p ∈ ps, p.1 ≠ [])
    (hsub : ∀ p ∈ ps, p ∈ read eq amp (written eq amp ps)) {p : List α × List α} (hp : p ∈ ps)
    (heq : eq ∈ p.1) : ∃ t, p = (t ++ [eq], []) ∧ (eq :: t, []) ∈ ps := by
  have hread := hsub p hp
  rw [read_written hne fun q hq => (mem_read (hsub q hq)).1] at hread
  obtain ⟨q, hq, hpq⟩ := List.mem_flatMap.mp hread
  have heq' : eq ∈ q.1 := by
    by_contra hnot
    rw [text, read_last hnot (mem_read (hsub q hq)).1, pairOf_key (hkeys q hq),
      List.mem_singleton] at hpq
    rw [hpq] at heq
    exact hnot heq
  obtain ⟨hamp, hnil⟩ := (mem_read (hsub q hq)).2 heq'
  obtain ⟨k1, k2, hk, hk1⟩ := List.eq_append_cons_of_mem heq'
  have hv : amp ∉ k2 ++ [eq] := by
    rw [hk] at hamp
    simp only [List.mem_append, List.mem_cons, not_or] at hamp
    simp [hamp.2.2, hne.symm]
  have htext : text eq q = k1 ++ eq :: (k2 ++ [eq]) := by simp [text, hk, hnil]
  rw [htext, read_last hk1 hv] at hpq
  rcases mem_pairOf hpq with ⟨-, rfl⟩ | ⟨rfl, -, rfl⟩
  · exact absurd heq hk1
  · refine ⟨k2, rfl, ?_⟩
    have : q = (eq :: k2, []) := Prod.ext hk hnil
    exact this ▸ hq

/-- Only faithful pairs are all read back. -/
theorem faithful_of_subset (hne : eq ≠ amp) (hkeys : ∀ p ∈ ps, p.1 ≠ [])
    (hsub : ∀ p ∈ ps, p ∈ read eq amp (written eq amp ps)) {p : List α × List α} (hp : p ∈ ps) :
    Faithful eq amp p := by
  refine ⟨(mem_read (hsub p hp)).1, ?_⟩
  by_cases heq : eq ∈ p.1
  · right
    have hnil := ((mem_read (hsub p hp)).2 heq).2
    refine ⟨?_, hnil⟩
    intro a ha
    obtain ⟨x, y, hxy⟩ := List.append_of_mem ha
    have hmem : (x ++ a :: y, []) ∈ ps := by
      rw [← hxy, ← hnil]
      exact hp
    exact eq_of_rotated (fun q hq hqe => rotated_of_subset hne hkeys hsub hq hqe) y x hmem
      (hxy ▸ heq)
  · exact .inl heq

end Subset

end Pairs
