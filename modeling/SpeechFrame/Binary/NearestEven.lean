import Mathlib.Data.Int.ConditionallyCompleteOrder
import Mathlib.Data.Rat.Floor
import Mathlib.Tactic.Linarith
import Mathlib.Tactic.Ring

set_option autoImplicit false

/-! # Rounding a rational number to the nearest even integer

The float conversions go to the nearest integer and, between two equally near ones, to the even one.
This file says so of exact rational numbers, where no word and no exponent is in the way.

Two facts fix the result, `abs_sub_nearestEven_le` and `even_nearestEven`, and `nearestEven_eq_iff`
says that nothing else does. What follows here is drawn from them and not from the definition. -/

namespace SpeechFrame.Binary

/-- The integer nearest to a rational number; of two equally near ones, the even one. -/
def nearestEven (x : ℚ) : ℤ :=
  if 2 * Int.fract x < 1 then ⌊x⌋
  else if 1 < 2 * Int.fract x then ⌊x⌋ + 1
  else ⌊x⌋ + ⌊x⌋ % 2

theorem abs_sub_nearestEven_le (x : ℚ) : |x - nearestEven x| ≤ 1 / 2 := by
  have hsplit := Int.floor_add_fract x
  have hlow := Int.fract_nonneg x
  have hhigh := Int.fract_lt_one x
  rw [nearestEven, abs_le]
  split
  · constructor <;> linarith
  · split
    · push_cast
      constructor <;> linarith
    · rcases Int.emod_two_eq_zero_or_one ⌊x⌋ with heven | hodd
      · rw [heven, add_zero]
        constructor <;> linarith
      · rw [hodd]
        push_cast
        constructor <;> linarith

/-- A tie goes to an even integer. -/
theorem even_nearestEven {x : ℚ} (h : |x - nearestEven x| = 1 / 2) : Even (nearestEven x) := by
  have hsplit := Int.floor_add_fract x
  have hlow := Int.fract_nonneg x
  have hhigh := Int.fract_lt_one x
  rw [nearestEven] at h ⊢
  split at h
  · next hbelow =>
    rw [abs_of_nonneg (by linarith)] at h
    linarith
  · next hbelow =>
    split at h
    · next habove =>
      push_cast at h
      rw [abs_of_neg (by linarith)] at h
      linarith
    · next habove =>
      rw [if_neg hbelow, if_neg habove, Int.even_iff]
      omega

/-- Two integers cannot both be within one half of a number, unless each is at a tie. -/
theorem eq_or_tie {x : ℚ} {m n : ℤ} (hm : |x - m| ≤ 1 / 2) (hn : |x - n| ≤ 1 / 2) :
    m = n ∨ |x - m| = 1 / 2 ∧ |x - n| = 1 / 2 ∧ |m - n| = 1 := by
  rcases eq_or_ne m n with heq | hne
  · exact .inl heq
  · have hapart : (1 : ℚ) ≤ |(m : ℚ) - n| := by exact_mod_cast Int.one_le_abs (sub_ne_zero.2 hne)
    have htriangle : |(m : ℚ) - n| ≤ |x - m| + |x - n| := by
      rw [abs_sub_comm x m]
      exact abs_sub_le (m : ℚ) x n
    have hstep : |(m : ℚ) - n| = 1 := by linarith
    exact .inr ⟨by linarith, by linarith, by exact_mod_cast hstep⟩

theorem nearestEven_eq_iff {x : ℚ} {n : ℤ} :
    nearestEven x = n ↔ |x - n| ≤ 1 / 2 ∧ (|x - n| = 1 / 2 → Even n) := by
  constructor
  · rintro rfl
    exact ⟨abs_sub_nearestEven_le x, even_nearestEven⟩
  · rintro ⟨hnear, heven⟩
    rcases eq_or_tie (abs_sub_nearestEven_le x) hnear with heq | ⟨htie, htie', hapart⟩
    · exact heq
    · have hboth := (even_nearestEven htie).sub (heven htie')
      have hodd : ¬ Even |nearestEven x - n| := by
        rw [hapart]
        decide
      exact absurd (even_abs.2 hboth) hodd

@[simp] theorem nearestEven_intCast (n : ℤ) : nearestEven (n : ℚ) = n := by
  rw [nearestEven_eq_iff, sub_self, abs_zero]
  norm_num

@[simp] theorem nearestEven_zero : nearestEven 0 = 0 := nearestEven_intCast 0

@[simp] theorem nearestEven_neg (x : ℚ) : nearestEven (-x) = -nearestEven x := by
  have hdist : |-x - ((-nearestEven x : ℤ) : ℚ)| = |x - nearestEven x| := by
    rw [Int.cast_neg, neg_sub_neg, abs_sub_comm]
  rw [nearestEven_eq_iff, hdist, even_neg]
  exact ⟨abs_sub_nearestEven_le x, even_nearestEven⟩

theorem nearestEven_monotone : Monotone nearestEven := by
  intro x y hxy
  by_contra! hlt
  have hx := abs_le.1 (abs_sub_nearestEven_le x)
  have hy := abs_le.1 (abs_sub_nearestEven_le y)
  have hapart : (nearestEven y : ℚ) + 1 ≤ nearestEven x := by exact_mod_cast hlt
  -- Both numbers are at the one tie between the two integers, so they are equal.
  have heq : x = y := by linarith
  rw [heq] at hlt
  exact lt_irrefl _ hlt

/-- No integer is nearer. -/
theorem abs_sub_nearestEven_le_abs_sub (x : ℚ) (n : ℤ) : |x - nearestEven x| ≤ |x - n| := by
  rcases le_total |x - n| (1 / 2) with hnear | hfar
  · rcases eq_or_tie (abs_sub_nearestEven_le x) hnear with heq | ⟨htie, htie', -⟩
    · rw [heq]
    · rw [htie, htie']
  · exact (abs_sub_nearestEven_le x).trans hfar

/-- Another integer that is as near lies next to the even one. -/
theorem even_nearestEven_of_ne {x : ℚ} {n : ℤ} (hne : n ≠ nearestEven x)
    (htie : |x - n| = |x - nearestEven x|) : Even (nearestEven x) ∧ |n - nearestEven x| = 1 := by
  have hnear : |x - n| ≤ 1 / 2 := htie.trans_le (abs_sub_nearestEven_le x)
  rcases eq_or_tie hnear (abs_sub_nearestEven_le x) with heq | ⟨-, hhalf, hapart⟩
  · exact absurd heq hne
  · exact ⟨even_nearestEven hhalf, hapart⟩

end SpeechFrame.Binary
