import Mathlib.Data.Int.ConditionallyCompleteOrder
import Mathlib.Data.Rat.Floor

set_option autoImplicit false

/-! # The integer part of a rational number

A constant becomes an integer by cutting its fraction off, and that goes toward zero: down for a
positive number and up for a negative one. This file says so of exact rational numbers, as
`SpeechFrame.Binary.nearestEven` does for the nearest integer. -/

namespace SpeechFrame.Binary

/-- The integer part of a rational number. -/
def truncate (x : ℚ) : ℤ := if 0 ≤ x then ⌊x⌋ else ⌈x⌉

variable {x : ℚ}

theorem truncate_of_nonneg (h : 0 ≤ x) : truncate x = ⌊x⌋ := if_pos h

theorem truncate_of_neg (h : x < 0) : truncate x = ⌈x⌉ := if_neg h.not_ge

@[simp] theorem truncate_intCast (n : ℤ) : truncate n = n := by
  simp [truncate]

@[simp] theorem truncate_neg (x : ℚ) : truncate (-x) = -truncate x := by
  rcases lt_trichotomy x 0 with hneg | rfl | hpos
  · rw [truncate_of_neg hneg, truncate_of_nonneg (neg_nonneg.2 hneg.le), Int.floor_neg]
  · simp [truncate]
  · rw [truncate_of_nonneg hpos.le, truncate_of_neg (neg_lt_zero.2 hpos), Int.ceil_neg]

theorem truncate_monotone : Monotone truncate := by
  intro x y hxy
  rcases le_or_gt 0 x with hx | hx
  · rw [truncate_of_nonneg hx, truncate_of_nonneg (hx.trans hxy)]
    exact Int.floor_le_floor hxy
  · rw [truncate_of_neg hx]
    rcases le_or_gt 0 y with hy | hy
    · rw [truncate_of_nonneg hy]
      exact (Int.ceil_nonpos.2 hx.le).trans (Int.floor_nonneg.2 hy)
    · rw [truncate_of_neg hy]
      exact Int.ceil_le_ceil hxy

end SpeechFrame.Binary
