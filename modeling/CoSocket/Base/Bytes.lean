import Mathlib

/-!
# Base.Bytes

Byte strings, and the numbers the programs load from them. `std::string` is a list of bytes here,
and a string literal of the source is `bytesOf` of the same literal. Loads from memory are those of
a little-endian host; `ntohs`, `ntohl` and `ntohll` swap the bytes of what was loaded.
-/

namespace CoSocket
namespace Base

abbrev Bytes := List UInt8

/-- The bytes of a literal with ASCII characters. -/
def bytesOf (s : String) : Bytes := s.toList.map fun c => UInt8.ofNat c.toNat

/-- The string that `std::string(s.c_str())` holds: it ends before the first zero byte. -/
def cStr (s : Bytes) : Bytes := s.takeWhile (· ≠ 0)

theorem cStr_eq_self_iff (s : Bytes) : cStr s = s ↔ 0 ∉ s := by
  rw [cStr, List.takeWhile_eq_self_iff]
  constructor
  · intro h h0
    exact of_decide_eq_true (h 0 h0) rfl
  · intro h b hb
    exact decide_eq_true fun h0 => h (h0 ▸ hb)

/-- The unsigned number stored at the bytes. -/
def load : Bytes → Nat
  | [] => 0
  | b :: bs => b.toNat + 256 * load bs

def ntohs (x : Nat) : Nat := 256 * (x % 256) + x / 256 % 256

def ntohl (x : Nat) : Nat :=
  256 ^ 3 * (x % 256) + 256 ^ 2 * (x / 256 % 256) + 256 * (x / 256 ^ 2 % 256) + x / 256 ^ 3 % 256

/-- The macro of `WebSocketParser.h`. -/
def ntohll (x : Nat) : Nat := 2 ^ 32 * ntohl (x % 2 ^ 32) + ntohl (x / 2 ^ 32)

/-- On a little-endian host both directions swap the bytes. -/
def htons (x : Nat) : Nat := ntohs x

/-- The macro of `WebSocketParser.h`. -/
def htonll (x : Nat) : Nat := 2 ^ 32 * ntohl (x % 2 ^ 32) + ntohl (x / 2 ^ 32)

/-- The bytes of a number in memory. -/
def store : Nat → Nat → Bytes
  | 0, _ => []
  | width + 1, n => UInt8.ofNat n :: store width (n / 256)

/-- The number in `width` bytes, most significant first: the order of the network. -/
def networkBytes : Nat → Nat → Bytes
  | 0, _ => []
  | width + 1, n => UInt8.ofNat (n / 256 ^ width) :: networkBytes width n

@[simp] theorem length_networkBytes (width n : Nat) : (networkBytes width n).length = width := by
  induction width with
  | zero => rfl
  | succ width ih => simp [networkBytes, ih]

@[simp] theorem length_store (width n : Nat) : (store width n).length = width := by
  induction width generalizing n with
  | zero => rfl
  | succ width ih => simp [store, ih]

theorem store_htons (n : Nat) : store 2 (htons n) = networkBytes 2 n := by
  have hlow : UInt8.ofNat (256 * (n % 256) + n / 256 % 256) = UInt8.ofNat (n / 256) := by
    apply UInt8.toNat_inj.mp
    simp only [UInt8.toNat_ofNat']
    omega
  have hdiv : (256 * (n % 256) + n / 256 % 256) / 256 = n % 256 := by omega
  have hhigh : UInt8.ofNat ((256 * (n % 256) + n / 256 % 256) / 256) = UInt8.ofNat n := by
    apply UInt8.toNat_inj.mp
    simp only [UInt8.toNat_ofNat', hdiv]
    omega
  simp [store, networkBytes, htons, ntohs, hlow, hhigh]

theorem load_append (as bs : Bytes) : load (as ++ bs) = load as + 256 ^ as.length * load bs := by
  induction as with
  | nil => simp [load]
  | cons a as ih =>
    simp only [List.cons_append, load, ih, List.length_cons, Nat.pow_succ]
    ring

theorem load_lt (bs : Bytes) : load bs < 256 ^ bs.length := by
  induction bs with
  | nil => simp [load]
  | cons b bs ih =>
    have hb := b.toNat_lt
    simp only [load, List.length_cons, Nat.pow_succ]
    omega

theorem ntohs_load (a b : UInt8) : ntohs (load [a, b]) = a.toNat * 256 + b.toNat := by
  have ha := a.toNat_lt
  have hb := b.toNat_lt
  simp only [load, ntohs]
  omega

theorem ntohs_load_networkBytes {n : Nat} (h : n < 2 ^ 16) :
    ntohs (load (networkBytes 2 n)) = n := by
  simp only [networkBytes, ntohs_load, UInt8.toNat_ofNat', pow_zero, pow_one, Nat.div_one]
  omega

theorem ntohl_load (a b c d : UInt8) :
    ntohl (load [a, b, c, d]) =
      a.toNat * 256 ^ 3 + b.toNat * 256 ^ 2 + c.toNat * 256 + d.toNat := by
  have ha := a.toNat_lt
  have hb := b.toNat_lt
  have hc := c.toNat_lt
  have hd := d.toNat_lt
  simp only [load, ntohl]
  omega

theorem ntohl_load_networkBytes (n : Nat) : ntohl (load (networkBytes 4 n)) = n % 2 ^ 32 := by
  simp only [networkBytes, ntohl_load, UInt8.toNat_ofNat']
  omega

theorem networkBytes_eight (n : Nat) :
    networkBytes 8 n = networkBytes 4 (n / 2 ^ 32) ++ networkBytes 4 n := by
  simp [networkBytes, Nat.div_div_eq_div_mul]

theorem ntohll_load_networkBytes {n : Nat} (h : n < 2 ^ 64) :
    ntohll (load (networkBytes 8 n)) = n := by
  have hlt := load_lt (networkBytes 4 (n / 2 ^ 32))
  have hlow : load (networkBytes 8 n) % 2 ^ 32 = load (networkBytes 4 (n / 2 ^ 32)) := by
    rw [networkBytes_eight, load_append, length_networkBytes] at *
    omega
  have hhigh : load (networkBytes 8 n) / 2 ^ 32 = load (networkBytes 4 n) := by
    rw [networkBytes_eight, load_append, length_networkBytes] at *
    omega
  rw [ntohll, hlow, hhigh, ntohl_load_networkBytes, ntohl_load_networkBytes]
  omega

end Base
end CoSocket
