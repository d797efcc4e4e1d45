import Mathlib

/-! # A rate kept with a fixed scale

A rate `x` is rounded down to a multiple of `1 / S` and then multiplied by a time `e`. What
is lost against rounding the exact product is bounded by the time over the scale. -/
namespace StealthWage.FixedPoint

variable {K : Type*} [Field K] [LinearOrder K] [IsStrictOrderedRing K] [FloorRing K]

/-- What accrues in the time `e` at the rate `x`, kept with the scale `S`. -/
def accrual (S x e : K) : ℤ := ⌊(⌊x * S⌋ : K) * e / S⌋

variable {S e : K} (hS : 0 < S) (he : 0 ≤ e) (x : K)

include hS he

theorem scaled_le : (⌊x * S⌋ : K) * e / S ≤ x * e := by
  rw [div_le_iff₀ hS]
  calc (⌊x * S⌋ : K) * e ≤ x * S * e := mul_le_mul_of_nonneg_right (Int.floor_le _) he
    _ = x * e * S := by ring

theorem lt_scaled : x * e ≤ (⌊x * S⌋ : K) * e / S + e / S := by
  rw [← add_div, le_div_iff₀ hS]
  have hrate : x * S * e ≤ (⌊x * S⌋ + 1) * e :=
    mul_le_mul_of_nonneg_right (Int.lt_floor_add_one _).le he
  linarith

theorem accrual_le : accrual S x e ≤ ⌊x * e⌋ := Int.floor_le_floor (scaled_le hS he x)

/-- The loss is less than the time over the scale, rounded up. -/
theorem le_accrual_add : ⌊x * e⌋ ≤ accrual S x e + ⌈e / S⌉ := by
  have hlt : (⌊(⌊x * S⌋ : K) * e / S⌋ : K) + 1 > (⌊x * S⌋ : K) * e / S := Int.lt_floor_add_one _
  have hexact := lt_scaled hS he x
  have hfloor := Int.floor_le (x * e)
  have hceil := Int.le_ceil (e / S)
  have hall : (⌊x * e⌋ : K) < ((accrual S x e + ⌈e / S⌉ + 1 : ℤ) : K) := by
    rw [accrual]
    push_cast
    linarith
  exact Int.lt_add_one_iff.mp (Int.cast_lt.mp hall)

/-! ## Reading the rate back -/

/-- `n` is the integer nearest to `y`, and the upper one of two that are. -/
structure IsNearest (y : K) (n : ℤ) : Prop where
  nearest : ∀ z : ℤ, |y - n| ≤ |y - z|
  upper : ∀ z : ℤ, |y - z| = |y - n| → z ≤ n

omit hS he in
theorem isNearest_round (y : K) : IsNearest y (round y) := by
  refine ⟨fun z => round_le y z, fun z heq => ?_⟩
  by_contra hlt
  have hnext : round y + 1 ≤ z := Int.add_one_le_iff.mpr (not_le.mp hlt)
  have hcast : (round y : K) + 1 ≤ z := by exact_mod_cast hnext
  have hhalf : y + 1 / 2 < (round y : K) + 1 := by
    rw [round_eq]
    exact Int.lt_floor_add_one _
  have hclose : |y - round y| ≤ 1 / 2 := abs_sub_round y
  have hfar : (z : K) - y ≤ |y - z| := by
    rw [abs_sub_comm]
    exact le_abs_self _
  linarith

/-- A product that is an integer is read back, if the time is at most half the scale. -/
theorem round_scaled {n : ℤ} (hn : x * e = n) (hhalf : 2 * e ≤ S) :
    round ((⌊x * S⌋ : K) * e / S) = n := by
  have hupper := scaled_le hS he x
  have hlower := lt_scaled hS he x
  have hloss : e / S ≤ 1 / 2 := by
    rw [div_le_iff₀ hS]
    linarith
  rw [hn] at hupper hlower
  rw [round_eq, Int.floor_eq_iff]
  constructor <;> linarith

end StealthWage.FixedPoint
