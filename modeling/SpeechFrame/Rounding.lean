import Mathlib.Data.Int.ConditionallyCompleteOrder
import Mathlib.Data.Rat.Floor
import Mathlib.Tactic.Linarith
import Mathlib.Tactic.Positivity
import Mathlib.Tactic.Ring

set_option autoImplicit false

/-! # Rounding and saturation of integers

A fixed-point number that moves to a coarser scale loses bits and is rounded; one that moves to a
finer scale may run out of its word and is taken to the nearer end of the range. This file says both
of integers, `halfUp` and `saturate`, where no word is in the way.

What rounding does is said by `le_halfUp_iff`: it tells which integers the rounded number reaches,
by a comparison in which nothing is divided. The other facts about rounding are read off it. -/

namespace SpeechFrame.Fixed

/-! ## Rounding -/

/-- The integer nearest to `n / 2 ^ shift`, ties upward. -/
def halfUp (n : Int) (shift : Nat) : Int := (2 * n + 2 ^ shift) / 2 ^ (shift + 1)

theorem le_halfUp_iff {m n : Int} {shift : Nat} :
    m ≤ halfUp n shift ↔ (2 * m - 1) * 2 ^ shift ≤ 2 * n := by
  rw [halfUp, Int.le_ediv_iff_mul_le (by positivity), pow_succ]
  constructor <;> intro h <;> linarith

theorem halfUp_lt_iff {m n : Int} {shift : Nat} :
    halfUp n shift < m ↔ 2 * n < (2 * m - 1) * 2 ^ shift := by
  rw [← not_le, le_halfUp_iff, not_le]

theorem halfUp_monotone (shift : Nat) : Monotone fun n => halfUp n shift := by
  intro m n hmn
  have hreached := le_halfUp_iff.1 (le_refl (halfUp m shift))
  rw [le_halfUp_iff]
  linarith

/-- A rounded number that goes back to where it was is off by one half of the step at most. -/
theorem abs_halfUp_mul_pow_sub_le (n : Int) (shift : Nat) :
    |halfUp n (shift + 1) * 2 ^ (shift + 1) - n| ≤ 2 ^ shift := by
  have hreached := le_halfUp_iff.1 (le_refl (halfUp n (shift + 1)))
  have hmissed := halfUp_lt_iff.1 (lt_add_one (halfUp n (shift + 1)))
  rw [pow_succ] at hreached hmissed ⊢
  rw [abs_le]
  constructor <;> linarith

/-- As it is said of rational numbers: the fraction is raised by one half and cut off downward. -/
theorem halfUp_eq_floor (n : Int) (shift : Nat) :
    halfUp n shift = ⌊(n : ℚ) / 2 ^ shift + 1 / 2⌋ := by
  refine eq_of_forall_le_iff fun m => ?_
  have hcast : (2 * m - 1) * 2 ^ shift ≤ 2 * n ↔ (2 * m - 1 : ℚ) * 2 ^ shift ≤ 2 * n := by
    exact_mod_cast Iff.rfl
  rw [le_halfUp_iff, Int.le_floor, hcast, ← sub_le_iff_le_add, le_div_iff₀ (by positivity)]
  constructor <;> intro h <;> linarith

/-- As it is done bit by bit: one bit more than wanted is kept, one is added, and it is dropped. -/
theorem halfUp_succ (n : Int) (shift : Nat) :
    halfUp n (shift + 1) = (n / 2 ^ shift + 1) / 2 := by
  refine eq_of_forall_le_iff fun m => ?_
  have hhalf : m ≤ (n / 2 ^ shift + 1) / 2 ↔ 2 * m - 1 ≤ n / 2 ^ shift := by omega
  rw [hhalf, Int.le_ediv_iff_mul_le (by positivity), le_halfUp_iff, pow_succ]
  constructor <;> intro h <;> linarith

@[simp] theorem halfUp_zero (n : Int) : halfUp n 0 = n := by
  rw [halfUp, pow_zero, zero_add, pow_one]
  omega

theorem halfUp_eq_zero {n : Int} {shift : Nat} (hlow : -2 ^ shift ≤ 2 * n)
    (hhigh : 2 * n < 2 ^ shift) : halfUp n shift = 0 := by
  apply le_antisymm
  · rw [← Int.lt_add_one_iff, halfUp_lt_iff]
    linarith
  · rw [le_halfUp_iff]
    linarith

/-! ### Numbers with bits to spare -/

theorem halfUp_mul_pow (n : Int) (shift k : Nat) :
    halfUp (n * 2 ^ k) (shift + k) = halfUp n shift := by
  refine eq_of_forall_le_iff fun m => ?_
  rw [le_halfUp_iff, le_halfUp_iff, pow_add, ← mul_assoc, ← mul_assoc]
  exact Int.mul_le_mul_iff_of_pos_right (by positivity)

/-- Bits that are there are all that is dropped, so nothing is rounded. -/
theorem halfUp_mul_pow_of_le (n : Int) {shift k : Nat} (h : shift ≤ k) :
    halfUp (n * 2 ^ k) shift = n * 2 ^ (k - shift) := by
  have hsplit : n * 2 ^ k = n * 2 ^ (k - shift) * 2 ^ shift := by
    rw [mul_assoc, ← pow_add, Nat.sub_add_cancel h]
  have hdrop := halfUp_mul_pow (n * 2 ^ (k - shift)) 0 shift
  rw [zero_add, halfUp_zero] at hdrop
  rw [hsplit, hdrop]

/-- Bits that are there are dropped first, and the rest is rounded. -/
theorem halfUp_mul_pow_of_ge (n : Int) {shift k : Nat} (h : k ≤ shift) :
    halfUp (n * 2 ^ k) shift = halfUp n (shift - k) := by
  obtain ⟨rest, rfl⟩ := Nat.exists_eq_add_of_le' h
  rw [halfUp_mul_pow, Nat.add_sub_cancel]

/-! ### Rounding twice -/

/-- Rounding twice never falls below rounding once: a tie of the second step is an integer, and the
    first step does not go past an integer. -/
theorem halfUp_le_halfUp_halfUp (n : Int) (s t : Nat) :
    halfUp n (s + t) ≤ halfUp (halfUp n s) t := by
  cases t with
  | zero => rw [halfUp_zero, Nat.add_zero]
  | succ t =>
    obtain ⟨m, hm⟩ : ∃ m, halfUp n (s + (t + 1)) = m := ⟨_, rfl⟩
    have honce : (2 * m - 1) * 2 ^ (s + (t + 1)) ≤ 2 * n := le_halfUp_iff.1 hm.ge
    have hfirst : (2 * m - 1) * 2 ^ t ≤ halfUp n s := by
      rw [le_halfUp_iff]
      have hpos : (0 : Int) < 2 ^ s := by positivity
      calc (2 * ((2 * m - 1) * 2 ^ t) - 1) * 2 ^ s
          = (2 * m - 1) * 2 ^ (s + (t + 1)) - 2 ^ s := by ring
        _ ≤ 2 * n := by linarith
    rw [hm, le_halfUp_iff]
    calc (2 * m - 1) * 2 ^ (t + 1) = 2 * ((2 * m - 1) * 2 ^ t) := by ring
      _ ≤ 2 * halfUp n s := by linarith

/-- Rounding twice goes at most one above rounding once. -/
theorem halfUp_halfUp_le (n : Int) (s t : Nat) :
    halfUp (halfUp n s) t ≤ halfUp n (s + t) + 1 := by
  cases t with
  | zero =>
    rw [halfUp_zero, Nat.add_zero]
    omega
  | succ t =>
    obtain ⟨m, hm⟩ : ∃ m, halfUp n (s + (t + 1)) = m := ⟨_, rfl⟩
    have honce : 2 * n < (2 * (m + 1) - 1) * 2 ^ (s + (t + 1)) := halfUp_lt_iff.1 (by omega)
    have hfirst : halfUp n s < (2 * (m + 2) - 1) * 2 ^ t := by
      rw [halfUp_lt_iff]
      have hpos : (0 : Int) < 2 ^ s := by positivity
      have hle : (2 : Int) ^ s ≤ 2 ^ s * 2 ^ t :=
        le_mul_of_one_le_right hpos.le (one_le_pow₀ one_le_two)
      calc 2 * n < (2 * (m + 1) - 1) * 2 ^ (s + (t + 1)) := honce
        _ = (2 * ((2 * (m + 2) - 1) * 2 ^ t) - 1) * 2 ^ s - (4 * (2 ^ s * 2 ^ t) - 2 ^ s) := by
          ring
        _ ≤ (2 * ((2 * (m + 2) - 1) * 2 ^ t) - 1) * 2 ^ s := by linarith
    rw [hm, ← Int.lt_add_one_iff, halfUp_lt_iff]
    calc 2 * halfUp n s < 2 * ((2 * (m + 2) - 1) * 2 ^ t) := by linarith
      _ = (2 * (m + 1 + 1) - 1) * 2 ^ (t + 1) := by ring

/-! ## Saturation -/

/-- The 32-bit integer nearest to an integer. -/
def saturate (x : Int) : Int := max (-2 ^ 31) (min x (2 ^ 31 - 1))

theorem saturate_of_mem {x : Int} (hlow : -2 ^ 31 ≤ x) (hhigh : x < 2 ^ 31) : saturate x = x := by
  unfold saturate
  omega

theorem saturate_monotone : Monotone saturate := by
  intro x y hxy
  unfold saturate
  omega

/-- A difference of one does not grow. -/
theorem saturate_le_saturate_add_one {a b : Int} (h : a ≤ b + 1) :
    saturate a ≤ saturate b + 1 := by
  unfold saturate
  omega

/-- A number that is at an end of the range stays there when it is made larger. -/
theorem saturate_saturate_mul (x : Int) {k : Int} (hk : 1 ≤ k) :
    saturate (saturate x * k) = saturate (x * k) := by
  rcases Int.lt_or_le x (-2 ^ 31) with hlow | hlow
  · have hend : saturate x = -2 ^ 31 := by unfold saturate; omega
    have hfar : x * k ≤ -2 ^ 31 := by nlinarith
    rw [hend]
    unfold saturate
    omega
  · rcases Int.lt_or_le x (2 ^ 31) with hhigh | hhigh
    · rw [saturate_of_mem hlow hhigh]
    · have hend : saturate x = 2 ^ 31 - 1 := by unfold saturate; omega
      have hfar : 2 ^ 31 - 1 ≤ x * k := by nlinarith
      rw [hend]
      unfold saturate
      omega

end SpeechFrame.Fixed
