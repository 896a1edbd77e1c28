import SpeechFrame.Proofs.Constants
import SpeechFrame.Proofs.FromFloat
import SpeechFrame.Proofs.Patterns

set_option autoImplicit false

/-! # Constants against analysis results

A number may come from floating point as a constant, raised by one half and cut off in the wider format,
or as an analysis result, rounded to the nearest integer in its own format. The two do not agree: below
zero the cut goes up, so that nearly every negative constant comes out one higher, and at a tie one
takes the upper integer and the other the even one. But the difference is never more than one, and it is
always to the same side.

For exact numbers this is `nearestEven_le_truncate_add_half` and the lemma after it. That no float step
disturbs it rests on the wider format having bits to spare. The product is exact, and so is the sum with
one half (`onGrid_add_half`) unless the number is so small that both ways give zero, or so large that
both end at the same end of the word. -/

namespace SpeechFrame.Fixed

open Binary

variable {lib : FloatLibrary} {v : Value} {x : ℚ} {n : ℤ} {q : Nat}

/-! ## Exact numbers -/

theorem nearestEven_le_truncate_add_half (x : ℚ) : nearestEven x ≤ truncate (x + 1 / 2) := by
  have hnear := abs_le.1 (abs_sub_nearestEven_le x)
  rcases le_or_gt 0 (x + 1 / 2) with hnonneg | hneg
  · rw [truncate_of_nonneg hnonneg, Int.le_floor]
    linarith
  · have habove := Int.le_ceil (x + 1 / 2)
    rw [truncate_of_neg hneg, ← Int.cast_le (R := ℚ)]
    linarith

theorem truncate_add_half_le_nearestEven_add_one (x : ℚ) :
    truncate (x + 1 / 2) ≤ nearestEven x + 1 := by
  have hnear := abs_le.1 (abs_sub_nearestEven_le x)
  rcases le_or_gt 0 (x + 1 / 2) with hnonneg | hneg
  · have hbelow := Int.floor_le (x + 1 / 2)
    rw [truncate_of_nonneg hnonneg, ← Int.cast_le (R := ℚ)]
    push_cast
    linarith
  · rw [truncate_of_neg hneg, Int.ceil_le]
    push_cast
    linarith

/-! ## One half more in the wider format -/

/-- A number whose last bit is not too far down, and whose first one is not too far up, can take one
    half more without a rounding. -/
theorem onGrid_add_half (h : OnGrid single.precision (-52) x) (hx : |x| < 2 ^ 32) :
    OnGrid double.precision double.minExponent (x + 1 / 2) := by
  obtain ⟨significand, exponent, hbits, hleast, rfl⟩ := h
  have hbits : |significand| < 2 ^ 24 := hbits
  rcases le_or_gt (-1) exponent with hhigh | hlow
  · -- The sum is a number of halves.
    obtain ⟨k, rfl⟩ := Int.exists_add_of_le hhigh
    have hhalf : (significand : ℚ) * 2 ^ (-1 + k : ℤ) = significand * 2 ^ k / 2 := by
      rw [zpow_add₀ two_ne_zero, zpow_natCast]
      ring
    have hsum : (significand : ℚ) * 2 ^ (-1 + k : ℤ) + 1 / 2 =
        ((significand * 2 ^ k + 1 : ℤ) : ℚ) * 2 ^ (-1 : ℤ) := by
      rw [hhalf]
      push_cast
      ring
    have hhalves : |(significand : ℚ) * 2 ^ k| < 2 ^ 33 := by
      rw [hhalf, abs_div, abs_two, div_lt_iff₀ two_pos] at hx
      exact hx.trans_eq (by norm_num)
    have hhalves' : |significand * 2 ^ k| < 2 ^ 33 := by exact_mod_cast hhalves
    rw [hsum]
    refine ⟨_, -1, ?_, by decide, rfl⟩
    have hprecision : double.precision = 53 := rfl
    rw [hprecision, abs_lt]
    rw [abs_lt] at hhalves'
    omega
  · -- One half is a multiple of the last place, with a factor that has bits to spare.
    obtain ⟨k, hk⟩ := Int.exists_add_of_le hlow.le
    have hsum : (significand : ℚ) * 2 ^ exponent + 1 / 2 =
        ((significand + 2 ^ k : ℤ) : ℚ) * 2 ^ exponent := by
      have hone : (1 / 2 : ℚ) = 2 ^ exponent * 2 ^ k := by
        rw [← zpow_natCast, ← zpow_add₀ two_ne_zero, ← hk]
        norm_num
      rw [hone]
      push_cast
      ring
    have hfactor : (2 : ℤ) ^ k ≤ 2 ^ 51 := pow_le_pow_right₀ one_le_two (by omega)
    have hpos : (0 : ℤ) < 2 ^ k := by positivity
    rw [hsum]
    refine ⟨_, exponent, ?_, ?_, rfl⟩
    · have hprecision : double.precision = 53 := rfl
      rw [hprecision, abs_lt]
      rw [abs_lt] at hbits
      omega
    · have hminimum : double.minExponent = -1074 := rfl
      omega

theorem truncate_eq_zero (hlow : 0 ≤ x) (hhigh : x < 1) : truncate x = 0 := by
  rw [truncate_of_nonneg hlow, Int.floor_eq_zero_iff]
  exact ⟨hlow, hhigh⟩

/-- What rounding the sum may do to a number of the narrower format does not show in the integer. -/
theorem saturate_truncate_of_nearest {raised : ℚ} (hx : OnGrid single.precision single.minExponent x)
    (h : NearestOnGrid double.precision double.minExponent (x + 1 / 2) raised) :
    saturate (truncate raised) = saturate (truncate (x + 1 / 2)) := by
  rcases lt_or_ge |x| (2 ^ 32) with hsmall | hlarge
  · rcases hx.coarse_or_lt (-52) with hcoarse | ⟨-, htiny⟩
    · rw [h.eq_self (onGrid_add_half hcoarse hsmall)]
    · -- Both sums lie between one quarter and three.
      have hquarter : (2 : ℚ) ^ (single.precision + -52 - 1 : ℤ) ≤ 1 / 4 := by
        have hprecision : (single.precision : ℤ) = 24 := rfl
        rw [hprecision]
        norm_num
      obtain ⟨hbelow, habove⟩ := abs_lt.1 (htiny.trans_le hquarter)
      have hone : OnGrid double.precision double.minExponent (1 / 4) :=
        ⟨1, -2, by decide, by decide, by norm_num⟩
      have hthree : OnGrid double.precision double.minExponent (3 / 4) :=
        ⟨3, -2, by decide, by decide, by norm_num⟩
      have hlow := hone.nearestOnGrid_self.mono h (by linarith)
      have hhigh := h.mono hthree.nearestOnGrid_self (by linarith)
      rw [truncate_eq_zero (by linarith) (by linarith), truncate_eq_zero (by linarith) (by linarith)]
  · rw [saturate_truncate_of_far hlarge h]
    split
    · next hneg =>
      rw [abs_of_neg hneg] at hlarge
      exact (truncate_rule.saturate_of_le (by linarith)).symm
    · next hnonneg =>
      rw [abs_of_nonneg (not_lt.1 hnonneg)] at hlarge
      exact (truncate_rule.saturate_of_ge (by linarith)).symm

/-! ## Numbers -/

/-- At a scale below the top one, the product of a number of the narrower format is exact. -/
theorem eq_of_nearest_product {product : ℚ} (hx : OnGrid single.precision single.minExponent x)
    (hq : q < 63) (h : NearestOnGrid double.precision double.minExponent
      (x * (wideOne q).toInt) product) :
    product = x * 2 ^ q ∧ OnGrid single.precision single.minExponent (x * 2 ^ q) := by
  have hgrid : OnGrid single.precision single.minExponent (x * 2 ^ q) := by
    rw [← zpow_natCast]
    exact (hx.mul_two_zpow q).of_le (by omega)
  have hwide : OnGrid double.precision double.minExponent (x * 2 ^ q) :=
    (hgrid.of_precision_le (by decide)).of_le (by decide)
  rw [toInt_wideOne_of_lt hq, Int.cast_pow, Int.cast_ofNat] at h
  exact ⟨h.eq_self hwide, hgrid⟩

theorem sub_ofFloat_of_constantAt (hlib : lib.Lawful) (hv : v.toRat? = some x)
    (hx : single.Holds x) (hq : q < 63) (h : ConstantAt q x n) :
    n - (ofFloat lib v q).toInt = 0 ∨ n - (ofFloat lib v q).toInt = 1 := by
  obtain ⟨product, raised, hproduct, hraised, rfl⟩ := h
  obtain ⟨rfl, hgrid⟩ := eq_of_nearest_product hx.1 hq hproduct
  have hlow := saturate_monotone (nearestEven_le_truncate_add_half (x * 2 ^ q))
  have hhigh := saturate_le_saturate_add_one
    (truncate_add_half_le_nearestEven_add_one (x * 2 ^ q))
  rw [saturate_truncate_of_nearest hgrid hraised, toInt_ofFloat hlib hv hx]
  omega

/-! ## Every pattern -/

/-- The number one at a scale below the top one is read as a positive datum. -/
theorem exists_ofInt_wideOne_eq (hq : q < 63) :
    ∃ significand exponent, double.ofInt (wideOne q).toInt = .finite false significand exponent ∧
      significand ≠ 0 := by
  obtain ⟨negative, significand, exponent, hdatum, hnumber⟩ :=
    Value.toRat?_eq_some_iff.1 (toRat?_ofInt_wideOne (show q < 64 by omega))
  have hpos : (0 : ℚ) < signed negative significand * 2 ^ exponent := by
    rw [hnumber, toInt_wideOne_of_lt hq]
    positivity
  have hne : significand ≠ 0 := by
    rintro rfl
    simp [signed] at hpos
  cases negative with
  | false => exact ⟨significand, exponent, hdatum, hne⟩
  | true => exact absurd ((signed_mul_two_zpow_lt_zero_iff true hne exponent).2 rfl) hpos.not_gt

theorem ofConstant_infinity (negative : Bool) (hq : q < 63) :
    ofConstant (.infinity negative) q =
      .ok (if negative then Int32.minValue else Int32.maxValue) := by
  obtain ⟨significand, exponent, hdatum, hne⟩ := exists_ofInt_wideOne_eq hq
  rw [ofConstant, if_pos (by omega), hdatum]
  simp only [Format.mul, if_neg hne, Bool.xor_false]
  rfl

/-- It makes no difference whether a datum of the narrower format is first written as a pattern of the
    wider one. -/
theorem ofConstant_toBits64 (bits : UInt32) (q : Nat) :
    ofConstant (Value.ofBits64 (Value.ofBits32 bits).toBits64) q =
      ofConstant (Value.ofBits32 bits) q := by
  rcases hv : Value.ofBits32 bits with _ | negative | ⟨negative, significand, exponent⟩
  · have hsame : Value.ofBits64 Value.nan.toBits64 = .nan := by decide
    rw [hsame]
  · have hsame : Value.ofBits64 (Value.infinity negative).toBits64 = .infinity negative := by
      cases negative <;> decide
    rw [hsame]
  · have hnumber : (single.decode bits.toNat).toRat? =
        some ((signed negative significand : ℚ) * 2 ^ exponent) := congrArg Value.toRat? hv
    exact ofConstant_congr (toRat?_ofBits64_toBits64 rfl (holds_double_of_decode hnumber)) rfl q

/-- **Constants agree with analysis results to one unit.** With a lawful library, for every pattern,
    what is not a number and the infinities included, and every scale up to 62, the integer of the
    constant is that of the analysis result or the next one above it, saturated or not. -/
theorem ofConstant_sub_ofFloat (hlib : lib.Lawful) (bits : UInt32) (hq : q ≤ 62) :
    ∃ n, ofConstant (Value.ofBits32 bits) q = .ok n ∧
      ofConstant (Value.ofBits64 (Value.ofBits32 bits).toBits64) q = .ok n ∧
      (n.toInt - (ofFloat lib (Value.ofBits32 bits) q).toInt = 0 ∨
        n.toInt - (ofFloat lib (Value.ofBits32 bits) q).toInt = 1) := by
  rw [ofConstant_toBits64]
  rcases hv : Value.ofBits32 bits with _ | negative | ⟨negative, significand, exponent⟩
  · have hconstant : ofConstant .nan q = .ok 0 := by
      rw [ofConstant, if_pos (by omega)]
      rfl
    exact ⟨0, hconstant, hconstant, .inl (by rw [ofFloat_nan hlib, sub_self])⟩
  · have hconstant := ofConstant_infinity negative (show q < 63 by omega)
    refine ⟨_, hconstant, hconstant, .inl ?_⟩
    rw [toInt_ofFloat_infinity hlib]
    cases negative <;> rfl
  · have hnumber : (single.decode bits.toNat).toRat? =
        some ((signed negative significand : ℚ) * 2 ^ exponent) := congrArg Value.toRat? hv
    obtain ⟨n, hn, hconstant⟩ := ofConstant_constantAt
      (v := .finite negative significand exponent) rfl (show q < 64 by omega)
    exact ⟨n, hn, hn, sub_ofFloat_of_constantAt hlib rfl
      (single.holds_of_decode (by decide) hnumber) (by omega) hconstant⟩

/-- A negative number next to an integer, at which the two ways differ by one; and the infinity that
    goes to the upper end at the last scale that keeps the order. -/
theorem ofConstant_sub_ofFloat_of_negative :
    let lib := FloatLibrary.exact
    lib.Lawful ∧ 0 ≤ 62 ∧
      (∃ n, ofConstant (Value.ofBits32 0xBF800001) 0 = .ok n ∧
        ofConstant (Value.ofBits64 (Value.ofBits32 0xBF800001).toBits64) 0 = .ok n ∧
        (n.toInt - (ofFloat lib (Value.ofBits32 0xBF800001) 0).toInt = 0 ∨
          n.toInt - (ofFloat lib (Value.ofBits32 0xBF800001) 0).toInt = 1)) ∧
      ofConstant (Value.ofBits32 0xBF800001) 0 = .ok 0 ∧
      ofFloat lib (Value.ofBits32 0xBF800001) 0 = -1 ∧
      62 ≤ 62 ∧
      (∃ n, ofConstant (Value.ofBits32 0x7F800000) 62 = .ok n ∧
        ofConstant (Value.ofBits64 (Value.ofBits32 0x7F800000).toBits64) 62 = .ok n ∧
        (n.toInt - (ofFloat lib (Value.ofBits32 0x7F800000) 62).toInt = 0 ∨
          n.toInt - (ofFloat lib (Value.ofBits32 0x7F800000) 62).toInt = 1)) ∧
      ofConstant (Value.ofBits32 0x7F800000) 62 = .ok Int32.maxValue := by
  intro lib
  have hlib : lib.Lawful := FloatLibrary.exact_lawful
  exact ⟨hlib, by decide, ofConstant_sub_ofFloat hlib 0xBF800001 (by decide), rfl, by decide,
    by decide, ofConstant_sub_ofFloat hlib 0x7F800000 (by decide), rfl⟩

end SpeechFrame.Fixed
