import Mathlib

/-!
# Base64

The padded base64 encoding: three bytes are four symbols of six bits, and a last group of one or two
bytes is filled up with a padding symbol. The alphabet is a parameter: `sym` gives the symbol of a
number below 64, and `val` reads it back.
-/

namespace Base64

variable {α : Type*}

/-- The symbols without the padding. -/
def symbols (sym : Nat → α) : List UInt8 → List α
  | [] => []
  | [a] => [sym (a.toNat / 4), sym (a.toNat % 4 * 16)]
  | [a, b] => [sym (a.toNat / 4), sym (a.toNat % 4 * 16 + b.toNat / 16), sym (b.toNat % 16 * 4)]
  | a :: b :: c :: rest =>
    sym (a.toNat / 4) :: sym (a.toNat % 4 * 16 + b.toNat / 16) ::
      sym (b.toNat % 16 * 4 + c.toNat / 64) :: sym (c.toNat % 64) :: symbols sym rest

def encode (sym : Nat → α) (pad : α) : List UInt8 → List α
  | [] => []
  | [a] => [sym (a.toNat / 4), sym (a.toNat % 4 * 16), pad, pad]
  | [a, b] =>
    [sym (a.toNat / 4), sym (a.toNat % 4 * 16 + b.toNat / 16), sym (b.toNat % 16 * 4), pad]
  | a :: b :: c :: rest =>
    sym (a.toNat / 4) :: sym (a.toNat % 4 * 16 + b.toNat / 16) ::
      sym (b.toNat % 16 * 4 + c.toNat / 64) :: sym (c.toNat % 64) :: encode sym pad rest

/-- Groups of four symbols; padding is allowed at the end only. -/
def decode [DecidableEq α] (val : α → Nat) (pad : α) : List α → Option (List UInt8)
  | [] => some []
  | w :: x :: y :: z :: rest =>
    if y = pad then
      if z = pad ∧ rest = [] then some [UInt8.ofNat (val w * 4 + val x / 16)] else none
    else if z = pad then
      if rest = [] then
        some [UInt8.ofNat (val w * 4 + val x / 16), UInt8.ofNat (val x % 16 * 16 + val y / 4)]
      else none
    else
      (decode val pad rest).map fun bs =>
        UInt8.ofNat (val w * 4 + val x / 16) :: UInt8.ofNat (val x % 16 * 16 + val y / 4) ::
          UInt8.ofNat (val y % 4 * 64 + val z) :: bs
  | _ => none

theorem length_symbols_le (sym : Nat → α) (bs : List UInt8) :
    (symbols sym bs).length ≤ (bs.length + 2) / 3 * 4 := by
  fun_induction symbols sym bs with
  | case1 => simp
  | case2 a => simp
  | case3 a b => simp
  | case4 a b c rest ih =>
    simp only [List.length_cons] at ih ⊢
    omega

theorem encode_eq_symbols (sym : Nat → α) (pad : α) (bs : List UInt8) :
    encode sym pad bs =
      symbols sym bs ++ List.replicate ((bs.length + 2) / 3 * 4 - (symbols sym bs).length) pad := by
  fun_induction encode sym pad bs with
  | case1 => rfl
  | case2 a => simp [symbols]
  | case3 a b => simp [symbols]
  | case4 a b c rest ih =>
    have hle := length_symbols_le sym rest
    have hpad :
        (rest.length + 1 + 1 + 1 + 2) / 3 * 4 - ((symbols sym rest).length + 1 + 1 + 1 + 1) =
        (rest.length + 2) / 3 * 4 - (symbols sym rest).length := by omega
    rw [ih, symbols]
    simp only [List.cons_append, List.length_cons, hpad]

/-- What was encoded is read back, if the symbols of different numbers differ from each other and
from the padding. -/
theorem decode_encode [DecidableEq α] {sym : Nat → α} {val : α → Nat} {pad : α}
    (hval : ∀ n < 64, val (sym n) = n) (hpad : ∀ n < 64, sym n ≠ pad) (bs : List UInt8) :
    decode val pad (encode sym pad bs) = some bs := by
  have hbyte : ∀ (b : UInt8) (n : Nat), n = b.toNat → UInt8.ofNat n = b := by
    rintro b n rfl
    exact UInt8.ofNat_toNat
  fun_induction encode sym pad bs with
  | case1 => rfl
  | case2 a =>
    have ha := a.toNat_lt
    rw [decode, if_pos rfl, if_pos ⟨rfl, rfl⟩, hval _ (by omega), hval _ (by omega)]
    rw [hbyte a _ (by omega)]
  | case3 a b =>
    have ha := a.toNat_lt
    have hb := b.toNat_lt
    rw [decode, if_neg (hpad _ (by omega)), if_pos rfl, if_pos rfl, hval _ (by omega),
      hval _ (by omega), hval _ (by omega)]
    rw [hbyte a _ (by omega), hbyte b _ (by omega)]
  | case4 a b c rest ih =>
    have ha := a.toNat_lt
    have hb := b.toNat_lt
    have hc := c.toNat_lt
    rw [decode, if_neg (hpad _ (by omega)), if_neg (hpad _ (by omega)), ih, hval _ (by omega),
      hval _ (by omega), hval _ (by omega), hval _ (by omega), Option.map_some]
    rw [hbyte a _ (by omega), hbyte b _ (by omega), hbyte c _ (by omega)]

end Base64
