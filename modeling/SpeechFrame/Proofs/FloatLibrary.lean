import SpeechFrame.Binary.FloatLibrary
import SpeechFrame.Proofs.FormatRounding

set_option autoImplicit false

/-! # What is expected of the mathematical library

The conversions from floating point and back depend on two functions that are not their own. This file
says what these are relied on for: `FloatLibrary.Lawful` has one condition for each kind of datum, and
none about data that the format of 32 bits cannot hold. A library may write a number down as whatever
triple it likes, and it may give a zero either sign.

The library that computes exactly is lawful (`FloatLibrary.exact_lawful`), so there is one. -/

namespace SpeechFrame.Binary.FloatLibrary

/-- What the functions of the library promise. -/
structure Lawful (lib : FloatLibrary) : Prop where
  /-- A number times `2 ^ n` is rounded once, ties to even, and is infinite if it overflows. -/
  scale_roundsTo : ∀ (v : Value) (x : ℚ) (n : Int32), v.toRat? = some x → single.Holds x →
    single.RoundsTo (x * 2 ^ n.toInt) (lib.scale v n)
  scale_infinity : ∀ negative n, lib.scale (.infinity negative) n = .infinity negative
  scale_nan : ∀ n, lib.scale .nan n = .nan
  /-- A number is rounded to the nearest integer, ties to even. -/
  toRat?_nearest : ∀ (v : Value) (x : ℚ), v.toRat? = some x → single.Holds x →
    (lib.nearest v).toRat? = some (nearestEven x : ℚ)
  nearest_infinity : ∀ negative, lib.nearest (.infinity negative) = .infinity negative
  nearest_nan : lib.nearest .nan = .nan

/-! ## The exact library -/

theorem exactScale_roundsTo {v : Value} {x : ℚ} (h : v.toRat? = some x) (n : Int32) :
    single.RoundsTo (x * 2 ^ n.toInt) (exactScale v n) := by
  obtain ⟨negative, significand, exponent, rfl, rfl⟩ := Value.toRat?_eq_some_iff.1 h
  rw [mul_assoc, ← zpow_add₀ two_ne_zero]
  exact single.round_roundsTo negative significand (exponent + n.toInt)

theorem toRat?_exactNearest {v : Value} {x : ℚ} (h : v.toRat? = some x) :
    (exactNearest v).toRat? = some (nearestEven x : ℚ) := by
  obtain ⟨negative, significand, exponent, rfl, rfl⟩ := Value.toRat?_eq_some_iff.1 h
  rw [exactNearest]
  split
  · next hge =>
    -- Without a fraction the number is an integer.
    obtain ⟨k, rfl⟩ := Int.eq_ofNat_of_zero_le hge
    have hinteger : (signed negative significand : ℚ) * 2 ^ (k : ℤ) =
        ((signed negative significand * 2 ^ k : ℤ) : ℚ) := by
      rw [zpow_natCast]
      push_cast
      rfl
    rw [Value.toRat?, hinteger, nearestEven_intCast]
  · next hneg =>
    have hmagnitude : nearestEven ((significand : ℚ) * 2 ^ exponent) =
        shiftNearestEven significand (-exponent).toNat := by
      rw [natCast_mul_two_zpow_of_neg significand (by omega), nearestEven_natCast_div_two_pow]
    rw [Value.toRat?, nearestEven_signed_mul negative hmagnitude, zpow_zero, mul_one]

theorem exact_lawful : exact.Lawful where
  scale_roundsTo _ _ n hv _ := exactScale_roundsTo hv n
  scale_infinity _ _ := rfl
  scale_nan _ := rfl
  toRat?_nearest _ _ hv _ := toRat?_exactNearest hv
  nearest_infinity _ := rfl
  nearest_nan := rfl

end SpeechFrame.Binary.FloatLibrary
