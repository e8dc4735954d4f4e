import Mathlib

/-!
# Base.Timestamp

`base/Timestamp.cpp`: a `timeval`, its comparison operators and `AddMillisecond`.

`AddMillisecond` adds the seconds and the microseconds of the argument separately and carries
nothing over, so the microseconds of a sum can reach one million and more. `micros` is the point
in time a `timeval` denotes; `addMillisecond_micros` says the sum denotes the right one, and
`Normal` singles out the values a clock reading can have.
-/

namespace CoSocket
namespace Base

structure Timestamp where
  tvSec : Int
  tvUsec : Int
deriving DecidableEq, Repr

namespace Timestamp

/-- C++ division and remainder truncate towards zero. -/
def addMillisecond (t : Timestamp) (millisecond : Int) : Timestamp where
  tvSec := t.tvSec + millisecond.tdiv 1000
  tvUsec := t.tvUsec + millisecond.tmod 1000 * 1000

/-- `operator <` -/
def less (lhs rhs : Timestamp) : Bool :=
  if lhs.tvSec < rhs.tvSec then true
  else if lhs.tvSec = rhs.tvSec then lhs.tvUsec < rhs.tvUsec
  else false

/-- `operator ==` -/
def equal (lhs rhs : Timestamp) : Bool :=
  lhs.tvSec = rhs.tvSec && lhs.tvUsec = rhs.tvUsec

/-- `operator >` -/
def greater (lhs rhs : Timestamp) : Bool :=
  if lhs.tvSec > rhs.tvSec then true
  else if lhs.tvSec = rhs.tvSec then lhs.tvUsec > rhs.tvUsec
  else false

/-- `operator -`, in milliseconds. -/
def diff (lhs rhs : Timestamp) : Int :=
  1000 * (lhs.tvSec - rhs.tvSec) + (lhs.tvUsec - rhs.tvUsec).tdiv 1000

/-- The point in time `t` denotes, in microseconds. -/
def micros (t : Timestamp) : Int := t.tvSec * 1000000 + t.tvUsec

/-- What `gettimeofday` can return. -/
def Normal (t : Timestamp) : Prop := 0 ≤ t.tvUsec ∧ t.tvUsec < 1000000

instance (t : Timestamp) : Decidable t.Normal := inferInstanceAs (Decidable (_ ∧ _))

theorem less_iff (a b : Timestamp) :
    a.less b = true ↔ a.tvSec < b.tvSec ∨ a.tvSec = b.tvSec ∧ a.tvUsec < b.tvUsec := by
  unfold less
  split
  · rename_i h; simp [h]
  · rename_i h
    split
    · rename_i he; simp [he]
    · rename_i he; simp [h, he]

theorem equal_iff (a b : Timestamp) : a.equal b = true ↔ a = b := by
  cases a; cases b
  simp [equal]

theorem greater_iff (a b : Timestamp) :
    a.greater b = true ↔ b.tvSec < a.tvSec ∨ a.tvSec = b.tvSec ∧ b.tvUsec < a.tvUsec := by
  unfold greater
  split
  · rename_i h; simp [h]
  · rename_i h
    split
    · rename_i he; simp [he]
    · rename_i he; simp [h, he]

theorem addMillisecond_micros (t : Timestamp) (ms : Int) :
    (t.addMillisecond ms).micros = t.micros + 1000 * ms := by
  have h := Int.tmod_add_mul_tdiv ms 1000
  simp only [addMillisecond, micros]
  omega

theorem addMillisecond_usec_bounds {t : Timestamp} {ms : Int} (ht : t.Normal) (hms : 0 < ms) :
    0 ≤ (t.addMillisecond ms).tvUsec ∧ (t.addMillisecond ms).tvUsec < 2000000 := by
  obtain ⟨h0, h1⟩ := ht
  have hlo := Int.tmod_nonneg 1000 hms.le
  have hhi := Int.tmod_lt_of_pos ms (show (0 : Int) < 1000 by decide)
  simp only [addMillisecond]
  omega

end Timestamp

end Base
end CoSocket
