import Mathlib.Data.Int.ConditionallyCompleteOrder
import SpeechFrame.Proofs.FormatRounding
import SpeechFrame.Proofs.Rescale

set_option autoImplicit false

/-! # Rounding into a word

A number becomes an integer by one of two rules, to the nearest integer or by cutting its fraction off,
and what is out of range goes to an end of the word. Little of a rule matters for that: it keeps the
order, and it leaves integers as they are (`RoundingRule`). So it does not show in a word that a format
has a largest exponent: the infinity that stands for a number beyond it is cut off at the same end of
the word as the number itself, `toInt_truncateInt32_of_roundsTo`. -/

namespace SpeechFrame.Fixed

open Binary

/-! ## Numbers out of range -/

/-- What the two rules have in common. -/
structure RoundingRule (r : ℚ → ℤ) : Prop where
  monotone : Monotone r
  intCast : ∀ n : ℤ, r n = n

theorem nearestEven_rule : RoundingRule nearestEven where
  monotone := nearestEven_monotone
  intCast := nearestEven_intCast

theorem truncate_rule : RoundingRule truncate where
  monotone := truncate_monotone
  intCast := truncate_intCast

namespace RoundingRule

variable {r : ℚ → ℤ} {x : ℚ}

theorem saturate_of_ge (h : RoundingRule r) (hx : 2 ^ 31 ≤ x) : saturate (r x) = 2 ^ 31 - 1 := by
  have hinteger : ((2 ^ 31 : ℤ) : ℚ) ≤ x := by exact_mod_cast hx
  have hround := h.monotone hinteger
  rw [h.intCast] at hround
  unfold saturate
  omega

theorem saturate_of_le (h : RoundingRule r) (hx : x ≤ -2 ^ 31) : saturate (r x) = -2 ^ 31 := by
  have hinteger : x ≤ ((-2 ^ 31 : ℤ) : ℚ) := by exact_mod_cast hx
  have hround := h.monotone hinteger
  rw [h.intCast] at hround
  unfold saturate
  omega

/-- A number that reaches a power beyond the word goes to the end on its side. -/
theorem saturate_of_large (h : RoundingRule r) {k : ℤ} (hk : 31 ≤ k) (hx : 2 ^ k ≤ |x|) :
    saturate (r x) = if x < 0 then -2 ^ 31 else 2 ^ 31 - 1 := by
  have hpower : (2 : ℚ) ^ (31 : ℕ) ≤ 2 ^ k := by
    rw [← zpow_natCast]
    exact zpow_le_zpow_right₀ one_le_two hk
  have hword := hpower.trans hx
  split
  · next hneg =>
    rw [abs_of_neg hneg] at hword
    exact h.saturate_of_le (by linarith)
  · next hnonneg =>
    rw [abs_of_nonneg (not_lt.1 hnonneg)] at hword
    exact h.saturate_of_ge hword

end RoundingRule

/-! ## Data -/

variable {v w : Value} {x : ℚ}

/-- An infinity is at the end of the word on its side. -/
theorem toInt_truncateInt32_infinity (negative : Bool) :
    (Value.infinity negative).truncateInt32.toInt = if negative then -2 ^ 31 else 2 ^ 31 - 1 := by
  cases negative <;> rfl

theorem truncate_signed_mul (negative : Bool) (significand : Nat) (exponent : ℤ) :
    truncate (signed negative significand * 2 ^ exponent) =
      signed negative (floorNat significand exponent) := by
  have hmagnitude := truncate_natCast_mul significand exponent
  cases negative with
  | false => exact hmagnitude
  | true => simpa [signed, truncate_neg] using hmagnitude

theorem toInt_truncateInt32 (hv : v.toRat? = some x) :
    v.truncateInt32.toInt = saturate (truncate x) := by
  obtain ⟨negative, significand, exponent, rfl, rfl⟩ := Value.toRat?_eq_some_iff.1 hv
  rw [truncate_signed_mul, ← toInt_ofIntClamp]
  rfl

/-- Overflow of a format does not show in a word: the datum of a number becomes the integer that its
    rounded number does, as if there were no largest exponent. -/
theorem toInt_truncateInt32_of_roundsTo {f : Format} (hf : 31 ≤ f.maxExponent + 1)
    (hw : f.RoundsTo x w) :
    ∃ y, NearestOnGrid f.precision f.minExponent x y ∧
      w.truncateInt32.toInt = saturate (truncate y) := by
  obtain ⟨y, hnearest, hfinite, hinfinite⟩ := hw
  refine ⟨y, hnearest, ?_⟩
  rcases lt_or_ge |y| (2 ^ (f.maxExponent + 1)) with hsmall | hlarge
  · exact toInt_truncateInt32 (hfinite hsmall)
  · rw [hinfinite hlarge, toInt_truncateInt32_infinity, truncate_rule.saturate_of_large hf hlarge]
    simp only [decide_eq_true_eq]

end SpeechFrame.Fixed
