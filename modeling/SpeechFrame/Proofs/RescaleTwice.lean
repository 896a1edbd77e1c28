import SpeechFrame.Proofs.Rescale

set_option autoImplicit false

/-! # Rescaling by way of another scale

A number may reach its scale by way of another one. A finer scale in between changes nothing as long
as the number fits there, and neither does a number that is taken to an end of the range on the way
to a finer scale still. Two steps to coarser scales round twice, which can end one above the direct
way but never below it. -/

namespace SpeechFrame.Fixed

variable {a b c : Nat}

/-- A scale at which the number is exact can lie on the way to any other. -/
theorem rescale_rescale_of_fits (n : Int32) (hab : a ≤ b) (hlow : -2 ^ 31 ≤ n.toInt * 2 ^ (b - a))
    (hhigh : n.toInt * 2 ^ (b - a) < 2 ^ 31) (c : Nat) :
    rescale (rescale n a b) b c = rescale n a c := by
  have hexact : (rescale n a b).toInt = n.toInt * 2 ^ (b - a) := by
    rw [toInt_rescale_of_le n hab, saturate_of_mem hlow hhigh]
  have hspare : halfUp (n.toInt * 2 ^ (b - a) * 2 ^ c) b = halfUp (n.toInt * 2 ^ c) a := by
    obtain ⟨spare, rfl⟩ := Nat.exists_eq_add_of_le hab
    rw [mul_right_comm, Nat.add_sub_cancel_left, halfUp_mul_pow]
  rw [← Int32.toInt_inj, toInt_rescale (rescale n a b), hexact, hspare, toInt_rescale]

/-- On the way to finer scales a number saturates at once or in the end, with the same result. -/
theorem rescale_rescale_of_le_of_le (n : Int32) (hab : a ≤ b) (hbc : b ≤ c) :
    rescale (rescale n a b) b c = rescale n a c := by
  have hpow : n.toInt * 2 ^ (b - a) * 2 ^ (c - b) = n.toInt * 2 ^ (c - a) := by
    rw [mul_assoc, ← pow_add, Nat.add_comm, Nat.sub_add_sub_cancel hbc hab]
  rw [← Int32.toInt_inj, toInt_rescale_of_le _ hbc, toInt_rescale_of_le n hab,
    saturate_saturate_mul _ (one_le_pow₀ one_le_two), hpow,
    toInt_rescale_of_le n (hab.trans hbc)]

/-- On the way to coarser scales a number is rounded once or twice. -/
theorem toInt_rescale_rescale_of_ge_of_ge (n : Int32) (hba : b ≤ a) (hcb : c ≤ b) :
    (rescale (rescale n a b) b c).toInt = halfUp (halfUp n.toInt (a - b)) (b - c) ∧
      (rescale n a c).toInt = halfUp n.toInt (a - b + (b - c)) := by
  refine ⟨by rw [toInt_rescale_of_ge _ hcb, toInt_rescale_of_ge n hba], ?_⟩
  rw [toInt_rescale_of_ge n (hcb.trans hba), Nat.sub_add_sub_cancel hba hcb]

/-- **A scale in between.** Nothing changes when both steps go to finer scales, saturated or not, or
    when the number fits at the finer scale between; two steps to coarser scales end at most one
    above the direct way, and never below it. -/
theorem rescale_rescale (n : Int32) (a b c : Nat) :
    (a ≤ b → b ≤ c → rescale (rescale n a b) b c = rescale n a c) ∧
    (a ≤ b → -2 ^ 31 ≤ n.toInt * 2 ^ (b - a) → n.toInt * 2 ^ (b - a) < 2 ^ 31 →
      rescale (rescale n a b) b c = rescale n a c) ∧
    (b ≤ a → c ≤ b →
      (rescale n a c).toInt ≤ (rescale (rescale n a b) b c).toInt ∧
        (rescale (rescale n a b) b c).toInt ≤ (rescale n a c).toInt + 1) := by
  refine ⟨fun hab hbc => rescale_rescale_of_le_of_le n hab hbc,
    fun hab hlow hhigh => rescale_rescale_of_fits n hab hlow hhigh c, fun hba hcb => ?_⟩
  obtain ⟨htwice, honce⟩ := toInt_rescale_rescale_of_ge_of_ge n hba hcb
  rw [htwice, honce]
  exact ⟨halfUp_le_halfUp_halfUp n.toInt (a - b) (b - c), halfUp_halfUp_le n.toInt (a - b) (b - c)⟩

/-- A number that saturates on the way, one that fits in between, and a quarter, which two steps round
    up to one half and then to one, where one step gives zero. -/
theorem rescale_rescale_of_quarter :
    rescale (rescale 1073741824 0 2) 2 5 = rescale 1073741824 0 5 ∧
      rescale 1073741824 0 2 = Int32.maxValue ∧
      -2 ^ 31 ≤ (-3 : Int32).toInt * 2 ^ (6 - 2) ∧ (-3 : Int32).toInt * 2 ^ (6 - 2) < 2 ^ 31 ∧
      rescale (rescale (-3) 2 6) 6 0 = rescale (-3) 2 0 ∧
      (rescale 1 2 0).toInt ≤ (rescale (rescale 1 2 1) 1 0).toInt ∧
      (rescale (rescale 1 2 1) 1 0).toInt ≤ (rescale 1 2 0).toInt + 1 ∧
      rescale (rescale 1 2 1) 1 0 = 1 ∧ rescale 1 2 0 = 0 := by
  have hends := (rescale_rescale 1073741824 0 2 5).1 (by decide) (by decide)
  have hfits := (rescale_rescale (-3) 2 6 0).2.1 (by decide) (by decide) (by decide)
  obtain ⟨hbelow, habove⟩ := (rescale_rescale 1 2 1 0).2.2 (by decide) (by decide)
  exact ⟨hends, by decide, by decide, by decide, hfits, hbelow, habove, by decide, by decide⟩

end SpeechFrame.Fixed
