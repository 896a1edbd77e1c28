import Mathlib.Tactic.GCongr
import Mathlib.Tactic.NormNum
import SpeechFrame.Fixed
import SpeechFrame.Rounding

set_option autoImplicit false

/-! # Moving a number between scales

`rescale` works in words of 64 bits, with shifts that it keeps short. This file follows the words
step by step to the integers they stand for and finds that nothing runs over on the way. What comes
out is one law for all pairs of scales, `toInt_rescale`: multiply by `2 ^ target`, round off `source`
bits, and saturate. Whatever is true of rescaling is then a matter of integers. -/

namespace SpeechFrame.Fixed

/-! ## Words of 64 bits -/

/-- A shift by fewer bits than a word has is by just so many. -/
theorem toNat_shiftAmount :
    ∀ shift < 64, ((Int64.ofNat shift).toBitVec.smod 64).toNat = shift := by
  decide

theorem toInt_shiftLeft (w : Int64) {shift : Nat} (h : shift < 64) :
    (w <<< Int64.ofNat shift).toInt = (w.toInt * 2 ^ shift).bmod (2 ^ 64) := by
  rw [← Int64.toInt_toBitVec, Int64.toBitVec_shiftLeft, BitVec.shiftLeft_eq',
    toNat_shiftAmount shift h, BitVec.toInt_shiftLeft, Nat.shiftLeft_eq, ← Int64.toInt_toBitVec,
    BitVec.toInt_eq_toNat_bmod, Int.bmod_mul_bmod]
  norm_cast

theorem toInt_shiftRight (w : Int64) {shift : Nat} (h : shift < 64) :
    (w >>> Int64.ofNat shift).toInt = w.toInt / 2 ^ shift := by
  rw [← Int64.toInt_toBitVec, Int64.toBitVec_shiftRight, BitVec.sshiftRight',
    toNat_shiftAmount shift h, BitVec.toInt_sshiftRight, Int.shiftRight_eq_div_pow,
    Int64.toInt_toBitVec]
  norm_cast

/-- A 64-bit word holds what is in its range. -/
theorem bmod_eq_self {x : Int} (hlow : -2 ^ 63 ≤ x) (hhigh : x < 2 ^ 63) :
    x.bmod (2 ^ 64) = x :=
  Int.bmod_eq_of_le (by omega) (by omega)

theorem toInt_ofIntClamp (x : Int) : (Int32.ofIntClamp x).toInt = saturate x := by
  have hmin : Int32.minValue.toInt = -2 ^ 31 := by decide
  have hmax : Int32.maxValue.toInt = 2 ^ 31 - 1 := by decide
  rw [Int32.ofIntClamp, saturate]
  split
  · next hlow =>
    split
    · next hhigh =>
      rw [Int32.toInt_ofIntLE]
      omega
    · omega
  · omega

theorem toInt_ofIntClamp16 (n : Int) :
    (Int16.ofIntClamp n).toInt = max (-2 ^ 15) (min n (2 ^ 15 - 1)) := by
  have hmin : Int16.minValue.toInt = -2 ^ 15 := by decide
  have hmax : Int16.maxValue.toInt = 2 ^ 15 - 1 := by decide
  rw [Int16.ofIntClamp]
  split
  · next hlow =>
    split
    · next hhigh =>
      rw [Int16.toInt_ofIntLE]
      omega
    · omega
  · omega

/-! ## Widening -/

theorem toInt_widened (n : Int32) {shift : Nat} (h : shift < 32) :
    (widened n shift).toInt = n.toInt * 2 ^ shift := by
  have hlow := n.le_toInt
  have hhigh := n.toInt_lt
  have hpow : (2 : Int) ^ shift ≤ 2 ^ 31 := pow_le_pow_right₀ one_le_two (by omega)
  have hpos : (0 : Int) < 2 ^ shift := by positivity
  rw [widened, toInt_shiftLeft _ (by omega), Int32.toInt_toInt64]
  apply bmod_eq_self
  · calc (-2 ^ 63 : Int) ≤ -2 ^ 31 * 2 ^ 31 := by norm_num
      _ ≤ -2 ^ 31 * 2 ^ shift := by linarith
      _ ≤ n.toInt * 2 ^ shift := by gcongr
  · calc n.toInt * 2 ^ shift < 2 ^ 31 * 2 ^ shift := by gcongr
      _ ≤ 2 ^ 31 * 2 ^ 31 := by gcongr
      _ ≤ 2 ^ 63 := by norm_num

/-- Widened by the width of its word, a number is at an end of the range, unless it is zero. -/
theorem toInt_rangeEnd (n : Int32) {shift : Nat} (h : 32 ≤ shift) :
    (rangeEnd n).toInt = saturate (n.toInt * 2 ^ shift) := by
  have hpow : (2 : Int) ^ 32 ≤ 2 ^ shift := pow_le_pow_right₀ one_le_two h
  have hmin : Int32.minValue.toInt = -2 ^ 31 := by decide
  have hmax : Int32.maxValue.toInt = 2 ^ 31 - 1 := by decide
  rw [rangeEnd, saturate]
  split
  · next hzero => simp [hzero]
  · next hzero =>
    have hne : n.toInt ≠ 0 := fun h => hzero (Int32.toInt_inj.1 h)
    split
    · next hpos =>
      have hpos : 0 < n.toInt := Int32.lt_iff_toInt_lt.1 hpos
      have hfar : (2 : Int) ^ 32 ≤ n.toInt * 2 ^ shift := by nlinarith
      omega
    · next hnonpos =>
      have hnonpos : ¬ 0 < n.toInt := fun hpos => hnonpos (Int32.lt_iff_toInt_lt.2 hpos)
      have hneg : n.toInt < 0 := by omega
      have hfar : n.toInt * 2 ^ shift ≤ -2 ^ 32 := by nlinarith
      omega

/-! ## Narrowing -/

theorem halfUp_toInt_mem (n : Int32) (shift : Nat) :
    -2 ^ 31 ≤ halfUp n.toInt shift ∧ halfUp n.toInt shift < 2 ^ 31 := by
  have hlow := n.le_toInt
  have hhigh := n.toInt_lt
  have hpow : (1 : Int) ≤ 2 ^ shift := one_le_pow₀ one_le_two
  rw [le_halfUp_iff, halfUp_lt_iff]
  constructor
  · linarith
  · linarith

theorem halfUp_toInt_eq_zero (n : Int32) {shift : Nat} (h : 32 ≤ shift) :
    halfUp n.toInt shift = 0 := by
  have hlow := n.le_toInt
  have hhigh := n.toInt_lt
  have hpow : (2 : Int) ^ 32 ≤ 2 ^ shift := pow_le_pow_right₀ one_le_two h
  exact halfUp_eq_zero (by omega) (by omega)

theorem toInt_kept (n : Int32) {shift : Nat} (h : shift < 64) :
    (n.toInt64 >>> Int64.ofNat shift).toInt = n.toInt / 2 ^ shift := by
  rw [toInt_shiftRight _ h, Int32.toInt_toInt64]

/-- One more than what a shift has kept is still in the word. -/
theorem toInt_kept_add_one (n : Int32) {shift : Nat} (h : shift < 64) :
    (n.toInt64 >>> Int64.ofNat shift + 1).toInt = n.toInt / 2 ^ shift + 1 := by
  have hlow := n.le_toInt
  have hhigh := n.toInt_lt
  have hpow : (1 : Int) ≤ 2 ^ shift := one_le_pow₀ one_le_two
  have hkeptLow : -2 ^ 31 ≤ n.toInt / 2 ^ shift := by
    rw [Int.le_ediv_iff_mul_le (by positivity)]
    linarith
  have hkeptHigh : n.toInt / 2 ^ shift < 2 ^ 31 := by
    rw [Int.ediv_lt_iff_lt_mul (by positivity)]
    linarith
  rw [Int64.toInt_add, toInt_kept n h, Int64.toInt_one]
  exact bmod_eq_self (by omega) (by omega)

theorem toInt_narrowed (n : Int32) {shift : Nat} (hpos : 0 < shift) (h : shift < 64) :
    (narrowed n shift).toInt = halfUp n.toInt shift := by
  obtain ⟨kept, rfl⟩ := Nat.exists_eq_add_one_of_ne_zero hpos.ne'
  have hlast := toInt_shiftRight (n.toInt64 >>> Int64.ofNat kept + 1) (show 1 < 64 by decide)
  rw [toInt_kept_add_one n (by omega), pow_one, ← halfUp_succ] at hlast
  exact hlast

/-- The bound on the shift does not show: behind it everything is rounded to zero. -/
theorem toInt_narrowed_min (n : Int32) {shift : Nat} (h : 0 < shift) :
    (narrowed n (min shift 63)).toInt = halfUp n.toInt shift := by
  rw [toInt_narrowed n (by omega) (by omega)]
  rcases Nat.lt_or_ge shift 63 with hlt | hge
  · rw [Nat.min_eq_left hlt.le]
  · rw [Nat.min_eq_right hge, halfUp_toInt_eq_zero n (by omega),
      halfUp_toInt_eq_zero n (by omega)]

/-! ## Any two scales -/

/-- The law of rescaling: with one rounding and one saturation, whatever the scales. -/
theorem toInt_rescale (n : Int32) (source target : Nat) :
    (rescale n source target).toInt = saturate (halfUp (n.toInt * 2 ^ target) source) := by
  rw [rescale]
  split
  · next heq =>
    rw [heq, halfUp_mul_pow_of_le _ (Nat.le_refl _), Nat.sub_self, pow_zero, mul_one,
      saturate_of_mem n.le_toInt n.toInt_lt]
  · next hne =>
    split
    · next hlt =>
      rw [halfUp_mul_pow_of_le _ hlt.le]
      split
      · next hfar => exact toInt_rangeEnd n hfar
      · next hnear => rw [toInt_ofIntClamp, toInt_widened n (by omega)]
    · next hge =>
      rw [halfUp_mul_pow_of_ge _ (by omega), toInt_ofIntClamp, toInt_narrowed_min n (by omega)]

theorem toInt_rescale_of_le (n : Int32) {source target : Nat} (h : source ≤ target) :
    (rescale n source target).toInt = saturate (n.toInt * 2 ^ (target - source)) := by
  rw [toInt_rescale, halfUp_mul_pow_of_le _ h]

theorem toInt_rescale_of_ge (n : Int32) {source target : Nat} (h : target ≤ source) :
    (rescale n source target).toInt = halfUp n.toInt (source - target) := by
  obtain ⟨hlow, hhigh⟩ := halfUp_toInt_mem n (source - target)
  rw [toInt_rescale, halfUp_mul_pow_of_ge _ h, saturate_of_mem hlow hhigh]

/-- The steps of a rescaling in words of 64 bits: no shift is by as many bits as a word has, and
    what comes of each step is the exact integer, so none runs over. -/
structure ExactSteps (n : Int32) (source target : Nat) : Prop where
  /-- Widening, where it is done by a shift at all. -/
  widened : source < target → target - source < 32 →
    target - source < 64 ∧ (widened n (target - source)).toInt = n.toInt * 2 ^ (target - source)
  /-- Narrowing, which is a shift, an addition, and a shift by the last bit. -/
  narrowed : target < source →
    let shift := min (source - target) 63
    let kept := n.toInt64 >>> Int64.ofNat (shift - 1)
    0 < shift ∧ shift - 1 < 64 ∧ kept.toInt = n.toInt / 2 ^ (shift - 1) ∧
      (kept + 1).toInt = kept.toInt + 1 ∧ (narrowed n shift).toInt = (kept.toInt + 1) / 2

theorem exactSteps (n : Int32) (source target : Nat) : ExactSteps n source target where
  widened _ hnear := ⟨by omega, toInt_widened n hnear⟩
  narrowed hlt := by
    intro shift kept
    have hpos : 0 < shift := by omega
    have hshift : shift - 1 < 64 := by omega
    have hkept : kept.toInt = n.toInt / 2 ^ (shift - 1) := toInt_kept n hshift
    have hraised : (kept + 1).toInt = kept.toInt + 1 := by
      rw [hkept]
      exact toInt_kept_add_one n hshift
    have hlast : (Fixed.narrowed n shift).toInt = (kept.toInt + 1) / 2 := by
      rw [toInt_narrowed n hpos (by omega), hkept, ← halfUp_succ, Nat.sub_add_cancel hpos]
    exact ⟨hpos, hshift, hkept, hraised, hlast⟩

/-- **Rescaling is exact, but for one rounding or one saturation.** A finer scale gives the number
    times a power of two, taken to the nearer end of the range if it does not fit; a coarser one
    gives the nearest integer to the quotient, ties upward. No 64-bit step on the way runs over. -/
theorem rescale_exact (n : Int32) (source target : Nat) :
    (source ≤ target →
      (rescale n source target).toInt =
        max (-2 ^ 31) (min (n.toInt * 2 ^ (target - source)) (2 ^ 31 - 1))) ∧
    (target < source →
      (rescale n source target).toInt =
        ⌊(n.toInt : ℚ) / 2 ^ (source - target) + 1 / 2⌋) ∧
    ExactSteps n source target := by
  refine ⟨fun hwiden => toInt_rescale_of_le n hwiden, fun hnarrow => ?_, exactSteps n source target⟩
  rw [toInt_rescale_of_ge n hnarrow.le, halfUp_eq_floor]

/-- A negative tie, which goes up, and the least word, which stays at the end of the range when it is
    moved by more bits than a word of 64 bits could be. -/
theorem rescale_exact_of_tie_and_end :
    0 < 1 ∧ (rescale (-5) 1 0).toInt = ⌊((-5 : Int32).toInt : ℚ) / 2 ^ (1 - 0) + 1 / 2⌋ ∧
      rescale (-5) 1 0 = -2 ∧
      0 ≤ 70 ∧ (rescale Int32.minValue 0 70).toInt =
        max (-2 ^ 31) (min (Int32.minValue.toInt * 2 ^ (70 - 0)) (2 ^ 31 - 1)) ∧
      rescale Int32.minValue 0 70 = Int32.minValue ∧
      ExactSteps (-5) 1 0 ∧ ExactSteps Int32.minValue 0 70 := by
  obtain ⟨-, htie, htieSteps⟩ := rescale_exact (-5) 1 0
  obtain ⟨hend, -, hendSteps⟩ := rescale_exact Int32.minValue 0 70
  exact ⟨by decide, htie (by decide), by decide, by decide, hend (by decide), by decide, htieSteps,
    hendSteps⟩

end SpeechFrame.Fixed
