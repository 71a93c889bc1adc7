import Mathlib.Algebra.Ring.Nat
import Mathlib.Logic.Function.Iterate

/-!
# Go's clocks and 64-bit counters

`time.Time` values are nanoseconds since the zero time, so the zero value is
`0` and `Before`, `After`, `Add` and `Sub` are the operations of `Int`.  The
values compared by one process are readings of one monotonic clock, whose
differences fit a `time.Duration`; `Sub` therefore never saturates on them.

`bump` is the increment used for tokens, revisions and epochs which reserve
zero for "none": a 64-bit increment which skips zero when it wraps.
-/

namespace Viiper.Verified.Go

/-- `time.Time`; the zero value is `0`. -/
abbrev Time := Int

abbrev Duration := Int

/-- A byte slice. -/
abbrev Bytes := List UInt8

/-- The idiom `if t.IsZero() { t = time.Now() }`. -/
def orNow (t now : Time) : Time := if t = 0 then now else t

/-- 64-bit increment which skips zero. -/
def bump (v : UInt64) : UInt64 := if v + 1 = 0 then 1 else v + 1

theorem bump_ne_zero (v : UInt64) : bump v ≠ 0 := by
  unfold bump
  split
  · decide
  · assumption

variable {v : UInt64}

/-- An increment which does not reach zero is a strict increase. -/
theorem lt_add_one_of_ne_zero (h : v + 1 ≠ 0) : v < v + 1 := by
  have hv := v.toNat_lt
  have hne : (v + 1).toNat ≠ 0 := fun h0 =>
    h (UInt64.toNat_inj.1 (by simpa using h0))
  rw [UInt64.toNat_add] at hne
  rw [UInt64.lt_iff_toNat_lt, UInt64.toNat_add]
  simp only [UInt64.toNat_one] at hne ⊢
  omega

/-- Below the last value `bump` is the ordinary successor. -/
theorem toNat_bump (h : v.toNat + 1 < 2 ^ 64) : (bump v).toNat = v.toNat + 1 := by
  have hsum : (v + 1).toNat = v.toNat + 1 := by
    rw [UInt64.toNat_add, UInt64.toNat_one, Nat.mod_eq_of_lt h]
  have hne : v + 1 ≠ 0 := by
    intro h0
    rw [h0] at hsum
    simp at hsum
  rw [bump, if_neg hne, hsum]

/-- Below the last value, repeated increments add up. -/
theorem toNat_iterate_bump {k : Nat} (h : v.toNat + k < 2 ^ 64) :
    (bump^[k] v).toNat = v.toNat + k := by
  induction k with
  | zero => rfl
  | succ k ih =>
    have hk := ih (by omega)
    rw [Function.iterate_succ_apply', toNat_bump (by omega), hk]
    omega

theorem bump_last (h : v.toNat + 1 = 2 ^ 64) : bump v = 1 := by
  have hzero : v + 1 = 0 := by
    apply UInt64.toNat_inj.1
    rw [UInt64.toNat_add, UInt64.toNat_one, h]
    rfl
  rw [bump, if_pos hzero]

/-- A counter never keeps its value across an increment. -/
theorem bump_ne_self (v : UInt64) : bump v ≠ v := by
  unfold bump
  split
  next h =>
    intro h1
    rw [← h1] at h
    exact absurd h (by decide)
  next h =>
    intro h1
    have := lt_add_one_of_ne_zero h
    rw [h1] at this
    exact UInt64.lt_irrefl _ this

end Viiper.Verified.Go
