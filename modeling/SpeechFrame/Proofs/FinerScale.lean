import SpeechFrame.Proofs.FromFloat

set_option autoImplicit false

/-! # From floating point by way of a finer scale

Analysis may bring a number into a finer scale first and move it to the scale of its field from there.
That way rounds twice, and the two roundings treat a tie differently: the first takes the even integer
and the second the upper one. Each of them is off by one half at most, and the first one is so at a
scale where a half counts for no more than a quarter later on. So the way around and the direct way,
which is off by one half itself, end at the same integer or at neighbours, with any lawful library. -/

namespace SpeechFrame.Fixed

open Binary

variable {lib : FloatLibrary} {v : Value} {x : ℚ} {a b : Nat}

/-! ## Two roundings and one -/

theorem abs_div_sub_halfUp_le (n : ℤ) (shift : Nat) :
    |(n : ℚ) / 2 ^ shift - halfUp n shift| ≤ 1 / 2 := by
  have hbelow := Int.floor_le ((n : ℚ) / 2 ^ shift + 1 / 2)
  have habove := Int.lt_floor_add_one ((n : ℚ) / 2 ^ shift + 1 / 2)
  rw [halfUp_eq_floor, abs_le]
  constructor <;> linarith

/-- What the first rounding changes is a quarter of the coarser step at most. -/
theorem abs_div_sub_nearestEven_div_le (x : ℚ) (shift : Nat) :
    |x / 2 ^ (shift + 1) - (nearestEven x : ℚ) / 2 ^ (shift + 1)| ≤ 1 / 4 := by
  have hpos : (0 : ℚ) < 2 ^ (shift + 1) := by positivity
  have hstep : (2 : ℚ) ≤ 2 ^ (shift + 1) := le_self_pow₀ one_le_two (Nat.succ_ne_zero shift)
  rw [← sub_div, abs_div, abs_of_pos hpos, div_le_iff₀ hpos]
  calc |x - nearestEven x| ≤ 1 / 2 := abs_sub_nearestEven_le x
    _ ≤ 1 / 4 * 2 ^ (shift + 1) := by linarith

/-- Rounding at a finer place first ends next to where rounding at once does. -/
theorem abs_halfUp_nearestEven_sub_le (x : ℚ) (shift : Nat) :
    |halfUp (nearestEven x) shift - nearestEven (x / 2 ^ shift)| ≤ 1 := by
  cases shift with
  | zero => simp
  | succ shift =>
    have hfirst := abs_le.1 (abs_div_sub_nearestEven_div_le x shift)
    have hsecond := abs_le.1 (abs_div_sub_halfUp_le (nearestEven x) (shift + 1))
    have hdirect := abs_le.1 (abs_sub_nearestEven_le (x / 2 ^ (shift + 1)))
    have hclose : |(halfUp (nearestEven x) (shift + 1) : ℚ) - nearestEven (x / 2 ^ (shift + 1))| <
        2 := by
      rw [abs_lt]
      constructor <;> linarith
    have hclose' : |halfUp (nearestEven x) (shift + 1) - nearestEven (x / 2 ^ (shift + 1))| < 2 := by
      exact_mod_cast hclose
    omega

/-! ## Two scales and one -/

/-- A number that fits a word at a scale is rounded there and not saturated. -/
theorem toInt_ofFloat_of_mem (hlib : lib.Lawful) (hv : v.toRat? = some x) (hx : single.Holds x)
    (hlow : -2 ^ 31 ≤ x * 2 ^ a) (hhigh : x * 2 ^ a < 2 ^ 31) :
    (ofFloat lib v a).toInt = nearestEven (x * 2 ^ a) := by
  have hfiner : OnGrid single.precision single.minExponent (x * 2 ^ a) := by
    rw [← zpow_natCast]
    exact (hx.1.mul_two_zpow a).of_le (by omega)
  obtain ⟨hwordLow, hwordHigh⟩ := nearestEven_mem_word hfiner hlow hhigh
  rw [toInt_ofFloat hlib hv hx, saturate_of_mem hwordLow hwordHigh]

/-- A number that fits a word at a scale fits it at every coarser one. -/
theorem mem_word_of_le (h : b ≤ a) (hlow : -2 ^ 31 ≤ x * 2 ^ a) (hhigh : x * 2 ^ a < 2 ^ 31) :
    -2 ^ 31 ≤ x * 2 ^ b ∧ x * 2 ^ b < 2 ^ 31 := by
  obtain ⟨rest, rfl⟩ := Nat.exists_eq_add_of_le h
  have hone : (1 : ℚ) ≤ 2 ^ rest := one_le_pow₀ one_le_two
  rw [pow_add, ← mul_assoc] at hlow hhigh
  constructor
  · by_contra! hbelow
    nlinarith
  · by_contra! habove
    nlinarith

/-- **A finer scale on the way from floating point.** With a lawful library, a number that fits a word
    at the finer scale ends at the same integer as by the direct way or at one next to it, whatever the
    two scales are. If it is a multiple of the step of the coarser scale, the two ways end at the same
    integer. -/
theorem rescale_ofFloat (hlib : lib.Lawful) {bits : UInt32}
    (hx : (Value.ofBits32 bits).toRat? = some x) (h : b ≤ a)
    (hlow : -2 ^ 31 ≤ x * 2 ^ a) (hhigh : x * 2 ^ a < 2 ^ 31) :
    |(rescale (ofFloat lib (Value.ofBits32 bits) a) a b).toInt -
        (ofFloat lib (Value.ofBits32 bits) b).toInt| ≤ 1 ∧
      ((∃ k : ℤ, x = k / 2 ^ b) →
        rescale (ofFloat lib (Value.ofBits32 bits) a) a b = ofFloat lib (Value.ofBits32 bits) b) := by
  have hholds : single.Holds x := single.holds_of_decode (by decide) hx
  obtain ⟨hlow', hhigh'⟩ := mem_word_of_le h hlow hhigh
  have hfine := toInt_ofFloat_of_mem hlib hx hholds hlow hhigh
  have hdirect := toInt_ofFloat_of_mem hlib hx hholds hlow' hhigh'
  obtain ⟨shift, rfl⟩ := Nat.exists_eq_add_of_le h
  rw [pow_add, ← mul_assoc] at hfine
  have haround : (rescale (ofFloat lib (Value.ofBits32 bits) (b + shift)) (b + shift) b).toInt =
      halfUp (nearestEven (x * 2 ^ b * 2 ^ shift)) shift := by
    rw [toInt_rescale_of_ge _ h, Nat.add_sub_cancel_left, hfine]
  constructor
  · have hclose := abs_halfUp_nearestEven_sub_le (x * 2 ^ b * 2 ^ shift) shift
    rwa [mul_div_cancel_right₀ _ (by positivity), ← haround, ← hdirect] at hclose
  · rintro ⟨k, rfl⟩
    rw [div_mul_cancel₀ _ (by positivity)] at haround hdirect
    have hinteger : nearestEven ((k : ℚ) * 2 ^ shift) = k * 2 ^ shift := by
      exact_mod_cast nearestEven_intCast (k * 2 ^ shift)
    rw [← Int32.toInt_inj, haround, hdirect, hinteger, halfUp_mul_pow_of_le _ le_rfl, Nat.sub_self,
      pow_zero, mul_one, nearestEven_intCast]

/-- One half, which the way around rounds up and the direct way to the even zero; and a negative
    multiple of the coarser step. -/
theorem rescale_ofFloat_of_half :
    let lib := FloatLibrary.exact
    lib.Lawful ∧ (Value.ofBits32 0x3F000000).toRat? = some (1 / 2) ∧ 0 ≤ 1 ∧
      -2 ^ 31 ≤ (1 / 2 : ℚ) * 2 ^ 1 ∧ (1 / 2 : ℚ) * 2 ^ 1 < 2 ^ 31 ∧
      |(rescale (ofFloat lib (Value.ofBits32 0x3F000000) 1) 1 0).toInt -
        (ofFloat lib (Value.ofBits32 0x3F000000) 0).toInt| ≤ 1 ∧
      rescale (ofFloat lib (Value.ofBits32 0x3F000000) 1) 1 0 = 1 ∧
      ofFloat lib (Value.ofBits32 0x3F000000) 0 = 0 ∧
      (Value.ofBits32 0xBFC00000).toRat? = some (-3 / 2) ∧ 1 ≤ 20 ∧
      (∃ k : ℤ, (-3 / 2 : ℚ) = k / 2 ^ 1) ∧
      rescale (ofFloat lib (Value.ofBits32 0xBFC00000) 20) 20 1 =
        ofFloat lib (Value.ofBits32 0xBFC00000) 1 := by
  intro lib
  have hlib : lib.Lawful := FloatLibrary.exact_lawful
  have hhalf : (Value.ofBits32 0x3F000000).toRat? = some (1 / 2) := by
    have hdatum : Value.ofBits32 0x3F000000 = .finite false 8388608 (-24) := by decide
    rw [hdatum, Value.toRat?]
    norm_num [signed]
  have hmultiple : (Value.ofBits32 0xBFC00000).toRat? = some (-3 / 2) := by
    have hdatum : Value.ofBits32 0xBFC00000 = .finite true 12582912 (-23) := by decide
    rw [hdatum, Value.toRat?]
    norm_num [signed]
  have hlow : -2 ^ 31 ≤ (1 / 2 : ℚ) * 2 ^ 1 := by norm_num
  have hhigh : (1 / 2 : ℚ) * 2 ^ 1 < 2 ^ 31 := by norm_num
  have hsteps : ∃ k : ℤ, (-3 / 2 : ℚ) = k / 2 ^ 1 := ⟨-3, by norm_num⟩
  obtain ⟨hclose, -⟩ := rescale_ofFloat hlib hhalf (show 0 ≤ 1 by decide) hlow hhigh
  obtain ⟨-, hequal⟩ :=
    rescale_ofFloat hlib hmultiple (show 1 ≤ 20 by decide) (by norm_num) (by norm_num)
  exact ⟨hlib, hhalf, by decide, hlow, hhigh, hclose, by decide, by decide, hmultiple, by decide, hsteps,
    hequal hsteps⟩

end SpeechFrame.Fixed
