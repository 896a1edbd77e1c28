import Mathlib.Algebra.Order.Group.Pointwise.Interval
import SpeechFrame.Proofs.Rescale

set_option autoImplicit false

/-! # To a coarser scale and back

A number that goes to a coarser scale and back keeps what the coarser scale can say of it. The way
back may saturate, since a number near the upper end rounds up to one that its own scale cannot
hold. This changes nothing: what comes back always lies between the number and the multiple it was
rounded to, and rounding takes all of that interval to the same integer. -/

namespace SpeechFrame.Fixed

/-- Seen from inside the range, saturation never goes past the number it is applied to. -/
theorem saturate_mem_uIcc {n : Int} (hlow : -2 ^ 31 ≤ n) (hhigh : n < 2 ^ 31) (x : Int) :
    saturate x ∈ Set.uIcc n x := by
  rw [Set.mem_uIcc]
  unfold saturate
  omega

/-- What comes back lies between the number and the multiple that it was rounded to. -/
theorem toInt_rescale_back_mem_uIcc (n : Int32) {a b : Nat} (h : b ≤ a) :
    (rescale (rescale n a b) b a).toInt ∈
      Set.uIcc n.toInt (halfUp n.toInt (a - b) * 2 ^ (a - b)) := by
  rw [toInt_rescale_of_le _ h, toInt_rescale_of_ge n h]
  exact saturate_mem_uIcc n.le_toInt n.toInt_lt _

/-- Between a number and the multiple it is rounded to, everything is rounded to that multiple. -/
theorem halfUp_eq_of_mem_uIcc {m n : Int} {shift : Nat}
    (h : m ∈ Set.uIcc n (halfUp n shift * 2 ^ shift)) : halfUp m shift = halfUp n shift := by
  have hends : halfUp (halfUp n shift * 2 ^ shift) shift = halfUp n shift := by
    rw [halfUp_mul_pow_of_le _ (Nat.le_refl shift), Nat.sub_self, pow_zero, mul_one]
  have hbetween := (halfUp_monotone shift).mapsTo_uIcc h
  simpa only [hends, Set.uIcc_self, Set.mem_singleton_iff] using hbetween

/-- **Requantising is a projection.** A number that is moved to a coarser scale and back is off by
    one half of the coarser step at most, and a second trip ends where the first one did, whether or
    not the way back has saturated. -/
theorem requantize (n : Int32) {a b : Nat} (h : b < a) :
    |(rescale (rescale n a b) b a).toInt - n.toInt| ≤ 2 ^ (a - b - 1) ∧
      rescale (rescale (rescale n a b) b a) a b = rescale n a b := by
  have hback := toInt_rescale_back_mem_uIcc n h.le
  constructor
  · obtain ⟨step, hstep⟩ := Nat.exists_eq_add_one_of_ne_zero (Nat.sub_ne_zero_of_lt h)
    have hhalf := abs_halfUp_mul_pow_sub_le n.toInt step
    rw [← hstep] at hhalf
    rw [hstep, Nat.add_sub_cancel]
    exact (Set.abs_sub_left_of_mem_uIcc hback).trans hhalf
  · rw [← Int32.toInt_inj, toInt_rescale_of_ge _ h.le, toInt_rescale_of_ge n h.le]
    exact halfUp_eq_of_mem_uIcc hback

/-- The greatest word, which rounds up to a number that saturates on its way back, and a number that
    is lost in a step wider than any word. -/
theorem requantize_of_end_and_wide_step :
    0 < 1 ∧ rescale Int32.maxValue 1 0 = 1073741824 ∧ rescale 1073741824 0 1 = Int32.maxValue ∧
      |(rescale (rescale Int32.maxValue 1 0) 0 1).toInt - Int32.maxValue.toInt| ≤ 2 ^ (1 - 0 - 1) ∧
      rescale (rescale (rescale Int32.maxValue 1 0) 0 1) 1 0 = rescale Int32.maxValue 1 0 ∧
      2 < 70 ∧
      |(rescale (rescale (-5) 70 2) 2 70).toInt - (-5 : Int32).toInt| ≤ 2 ^ (70 - 2 - 1) ∧
      rescale (rescale (rescale (-5) 70 2) 2 70) 70 2 = rescale (-5) 70 2 := by
  obtain ⟨hnear, hstable⟩ := requantize Int32.maxValue (show 0 < 1 by decide)
  obtain ⟨hnear', hstable'⟩ := requantize (-5) (show 2 < 70 by decide)
  exact ⟨by decide, by decide, by decide, hnear, hstable, by decide, hnear', hstable'⟩

end SpeechFrame.Fixed
