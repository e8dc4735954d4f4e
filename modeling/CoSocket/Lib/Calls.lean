import Mathlib.Logic.Basic

/-!
# Calls

An object that answers calls, one after another. `call s a` is what the call `a` returns in the
state `s`, and the state it leaves.

* `after`, `answers` — the state after a list of calls, and what they return.
* `Bisimulation` — a relation between two objects that the calls keep, with the same answers on
  both sides; `Bisimulation.answers_eq` is about all the calls.
* `require`, `run` — the same object with checks that can fail, and the calls up to the first
  failure; `run_eq_ok` is the rule for an object that never fails, from an invariant.

Nothing here depends on a particular object.
-/

namespace Calls

universe u

variable {σ σ' α β ε : Type*} {call : σ → α → β × σ} {call' : σ' → α → β × σ'}

/-- The state after the calls. -/
def after (call : σ → α → β × σ) (s : σ) (as : List α) : σ := as.foldl (fun s a => (call s a).2) s

/-- What the calls return, in order. -/
def answers (call : σ → α → β × σ) : σ → List α → List β
  | _, [] => []
  | s, a :: as => (call s a).1 :: answers call (call s a).2 as

@[simp] theorem after_nil (s : σ) : after call s [] = s := rfl

@[simp] theorem after_cons (s : σ) (a : α) (as : List α) :
    after call s (a :: as) = after call (call s a).2 as := rfl

theorem after_append (s : σ) (as bs : List α) :
    after call s (as ++ bs) = after call (after call s as) bs := List.foldl_append

/-- What every call keeps holds after all of them. -/
theorem after_invariant {I : σ → Prop} (hcall : ∀ s a, I s → I (call s a).2) {s : σ} (h : I s)
    (as : List α) : I (after call s as) := by
  induction as generalizing s with
  | nil => exact h
  | cons a as ih =>
    rw [after_cons]
    exact ih (hcall s a h)

/-- States related by `R` answer every call in the same way, and are related after it. -/
structure Bisimulation (call : σ → α → β × σ) (call' : σ' → α → β × σ') (R : σ → σ' → Prop) :
    Prop where
  answer : ∀ s t a, R s t → (call s a).1 = (call' t a).1
  next : ∀ s t a, R s t → R (call s a).2 (call' t a).2

theorem Bisimulation.answers_eq {R : σ → σ' → Prop} (hR : Bisimulation call call' R) {s : σ}
    {t : σ'} (h : R s t) (as : List α) : answers call s as = answers call' t as := by
  induction as generalizing s t with
  | nil => rfl
  | cons a as ih =>
    simp only [answers]
    rw [hR.answer s t a h, ih (hR.next s t a h)]

/-- A check: go on if `c` holds, and fail with `e` if it does not. -/
def require (c : Prop) [Decidable c] (e : ε) : Except ε Unit := if c then .ok () else .error e

@[simp] theorem ok_bind {γ δ : Type u} (c : γ) (f : γ → Except ε δ) : (Except.ok c >>= f) = f c :=
  rfl

@[simp] theorem require_of {c : Prop} [Decidable c] (h : c) (e : ε) : require c e = .ok () :=
  if_pos h

/-- The calls with their checks, up to the first one that fails. -/
def run (check : σ → α → Except ε (β × σ)) : σ → List α → Except ε (List β × σ)
  | s, [] => .ok ([], s)
  | s, a :: as => do
    let (b, s) ← check s a
    let (bs, s) ← run check s as
    return (b :: bs, s)

/-- Where an invariant makes every check succeed and is kept by every call, no sequence of calls
fails, and the checks change nothing. -/
theorem run_eq_ok {check : σ → α → Except ε (β × σ)} {I : σ → Prop}
    (hcheck : ∀ s a, I s → check s a = .ok (call s a)) (hcall : ∀ s a, I s → I (call s a).2)
    {s : σ} (h : I s) (as : List α) :
    run check s as = .ok (answers call s as, after call s as) := by
  induction as generalizing s with
  | nil => rfl
  | cons a as ih =>
    rw [run, hcheck s a h]
    show (run check (call s a).2 as >>= fun r => pure ((call s a).1 :: r.1, r.2)) = _
    rw [ih (hcall s a h)]
    rfl

end Calls
