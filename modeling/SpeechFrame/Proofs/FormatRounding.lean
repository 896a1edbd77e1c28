import SpeechFrame.Binary.Denotation
import SpeechFrame.Binary.Truncate

set_option autoImplicit false

/-! # Rounding to a format is correct

The steps that round work on significands: they divide with a remainder, shift, compare leading bits
and answer far shifts without making them. This file shows that all of it amounts to what is meant.
Rounding to an integer gives the nearest one, ties to even, and rounding to a format gives a datum
that is the exact number rounded once, `round_roundsTo`. Products, sums and the reading of an integer
are such roundings of the exact result, so nothing about significands is needed behind this file. -/

namespace SpeechFrame.Binary

/-! ## Rounding to an integer -/

theorem nearestEven_natCast_div (n : Nat) {d : Nat} (hd : 0 < d) :
    nearestEven (n / d) = divNearestEven n d := by
  have hpos : (0 : ℚ) < d := by exact_mod_cast hd
  have hbelow : 2 * Int.fract ((n : ℚ) / d) < 1 ↔ 2 * (n % d) < d := by
    rw [Int.fract_div_natCast_eq_div_natCast_mod, ← mul_div_assoc, div_lt_one hpos]
    norm_cast
  have habove : 1 < 2 * Int.fract ((n : ℚ) / d) ↔ d < 2 * (n % d) := by
    rw [Int.fract_div_natCast_eq_div_natCast_mod, ← mul_div_assoc, one_lt_div hpos]
    norm_cast
  simp only [nearestEven, divNearestEven, hbelow, habove, Rat.floor_natCast_div_natCast]
  split_ifs <;> norm_cast

theorem nearestEven_natCast_div_two_pow (n shift : Nat) :
    nearestEven (n / 2 ^ shift) = shiftNearestEven n shift := by
  rw [shiftNearestEven]
  split
  · next hfar =>
    have hpos : (0 : ℚ) < 2 ^ shift := by positivity
    have hbits : 2 * n < 2 ^ shift :=
      calc 2 * n < 2 * 2 ^ (n.log2 + 1) := by
            have := Nat.lt_log2_self (n := n)
            omega
        _ = 2 ^ (n.log2 + 1 + 1) := by rw [pow_succ 2 (n.log2 + 1), mul_comm]
        _ ≤ 2 ^ shift := Nat.pow_le_pow_right two_pos hfar
    have hbits' : (2 * n : ℚ) < 2 ^ shift := by exact_mod_cast hbits
    have hhalf : (n : ℚ) / 2 ^ shift < 1 / 2 := by
      rw [div_lt_iff₀ hpos]
      linarith
    rw [nearestEven_eq_iff, Nat.cast_zero, Int.cast_zero, sub_zero, abs_of_nonneg (by positivity)]
    exact ⟨hhalf.le, fun htie => absurd htie hhalf.ne⟩
  · rw [← nearestEven_natCast_div n (Nat.two_pow_pos shift)]
    norm_cast

theorem natCast_mul_two_zpow_of_neg (n : Nat) {e : ℤ} (h : e < 0) :
    (n : ℚ) * 2 ^ e = n / 2 ^ (-e).toNat := by
  rw [div_eq_mul_inv, ← zpow_natCast, ← zpow_neg]
  congr 2
  omega

/-! ## The integer part -/

theorem truncate_natCast_mul (significand : Nat) (exponent : ℤ) :
    truncate (significand * 2 ^ exponent) = floorNat significand exponent := by
  rw [floorNat]
  split
  · next hge =>
    obtain ⟨k, rfl⟩ := Int.eq_ofNat_of_zero_le hge
    rw [Int.toNat_natCast, Nat.shiftLeft_eq, zpow_natCast]
    exact_mod_cast truncate_intCast (significand * 2 ^ k)
  · next hlt =>
    rw [natCast_mul_two_zpow_of_neg significand (by omega), truncate_of_nonneg (by positivity),
      Nat.shiftRight_eq_div_pow]
    exact_mod_cast Rat.floor_natCast_div_natCast significand (2 ^ (-exponent).toNat)

/-! ## Leading bits -/

/-- A number reaches a power of two just when its leading bit does. -/
theorem two_zpow_le_natCast_mul_iff {n : Nat} (hn : n ≠ 0) (k e : ℤ) :
    2 ^ k ≤ (n : ℚ) * 2 ^ e ↔ k ≤ n.log2 + e := by
  have hpos : (0 : ℚ) < 2 ^ e := by positivity
  constructor
  · contrapose!
    intro hlt
    have hbits : (n : ℚ) < 2 ^ (n.log2 + 1) := by exact_mod_cast Nat.lt_log2_self
    calc (n : ℚ) * 2 ^ e < 2 ^ (n.log2 + 1) * 2 ^ e := by gcongr
      _ = 2 ^ ((n.log2 + 1 : ℕ) + e : ℤ) := by rw [zpow_add₀ two_ne_zero, zpow_natCast]
      _ ≤ 2 ^ k := zpow_le_zpow_right₀ one_le_two (by omega)
  · intro hle
    have hbits : (2 : ℚ) ^ n.log2 ≤ n := by exact_mod_cast Nat.log2_self_le hn
    calc (2 : ℚ) ^ k ≤ 2 ^ (n.log2 + e : ℤ) := zpow_le_zpow_right₀ one_le_two hle
      _ = 2 ^ n.log2 * 2 ^ e := by rw [zpow_add₀ two_ne_zero, zpow_natCast]
      _ ≤ n * 2 ^ e := by gcongr

namespace Format

variable (f : Format) (negative : Bool) (significand : Nat) (exponent : ℤ)

theorem precision_pos : 1 ≤ f.precision := Nat.succ_pos f.fractionBits

/-! ## Rounding to a format -/

/-- A number of the format's precision is left as it is or becomes infinite. -/
theorem bounded_roundsTo {x : ℚ}
    (h : NearestOnGrid f.precision f.minExponent x (signed negative significand * 2 ^ exponent)) :
    f.RoundsTo x (f.bounded negative significand exponent) := by
  refine ⟨_, h, ?_⟩
  rw [abs_signed_mul_two_zpow, bounded]
  split
  · next hzero =>
    subst hzero
    simp [Value.toRat?, signed]
    positivity
  · next hne =>
    have hreach := two_zpow_le_natCast_mul_iff hne (f.maxExponent + 1) exponent
    have hsign := signed_mul_two_zpow_lt_zero_iff negative hne exponent
    split
    · next hbeyond =>
      refine ⟨fun hsmall => absurd hsmall (hreach.2 (by omega)).not_gt, fun _ => ?_⟩
      simp only [hsign, Bool.decide_eq_true]
    · next hwithin =>
      refine ⟨fun _ => rfl, fun hlarge => ?_⟩
      exact absurd (hreach.1 hlarge) (by omega)

/-- Where all bits fit, the number is on the grid already. -/
theorem onGrid_of_lastPlace_le (h : f.lastPlace significand exponent ≤ exponent) :
    OnGrid f.precision f.minExponent (signed negative significand * 2 ^ exponent) := by
  have hbits : significand < 2 ^ f.precision :=
    Nat.lt_log2_self.trans_le (Nat.pow_le_pow_right two_pos (by unfold lastPlace at h; omega))
  have hbits' : |(signed negative significand : ℚ)| < 2 ^ f.precision := by
    rw [abs_signed]
    exact_mod_cast hbits
  exact ⟨signed negative significand, exponent, by exact_mod_cast hbits',
    by unfold lastPlace at h; omega, rfl⟩

/-- What a shift to the last place leaves of a number is the nearest number of the grid. -/
theorem nearestOnGrid_shiftNearestEven (h : exponent < f.lastPlace significand exponent) :
    let place := f.lastPlace significand exponent
    NearestOnGrid f.precision f.minExponent (signed negative significand * 2 ^ exponent)
      (signed negative (shiftNearestEven significand (place - exponent).toNat) * 2 ^ place) := by
  intro place
  have hquotient : (signed negative significand : ℚ) * 2 ^ exponent / 2 ^ place =
      signed negative significand * 2 ^ (exponent - place) := by
    rw [mul_div_assoc, zpow_sub₀ two_ne_zero]
  have hshift : nearestEven ((significand : ℚ) * 2 ^ (exponent - place)) =
      shiftNearestEven significand (place - exponent).toNat := by
    rw [natCast_mul_two_zpow_of_neg significand (by omega), neg_sub,
      nearestEven_natCast_div_two_pow]
  rw [← nearestEven_signed_mul negative hshift, ← hquotient]
  rcases eq_or_ne significand 0 with rfl | hne
  · have hzero : OnGrid f.precision f.minExponent 0 := ⟨0, f.minExponent, by simp, le_rfl, by simp⟩
    simpa [signed] using hzero.nearestOnGrid_self
  · have hreach := two_zpow_le_natCast_mul_iff hne
    have hplace : place = max (significand.log2 + 1 + exponent - f.precision) f.minExponent := rfl
    apply nearestOnGrid_of_place f.precision_pos (by omega)
    · rw [abs_signed_mul_two_zpow, ← not_le, hreach]
      omega
    · rw [abs_signed_mul_two_zpow, hreach]
      omega

/-- **Rounding to a format is correct.** The result is the exact number rounded once, with ties to
    even. -/
theorem round_roundsTo :
    f.RoundsTo (signed negative significand * 2 ^ exponent)
      (f.round negative significand exponent) := by
  rw [Format.round]
  split
  · next hfits =>
    exact f.bounded_roundsTo _ _ _
      (f.onGrid_of_lastPlace_le negative significand exponent hfits).nearestOnGrid_self
  · next hshift =>
    exact f.bounded_roundsTo _ _ _
      (f.nearestOnGrid_shiftNearestEven negative significand exponent (by omega))

/-! ## Steps that round once -/

theorem ofInt_roundsTo (n : ℤ) : f.RoundsTo n (f.ofInt n) := by
  have hround := f.round_roundsTo (n < 0) n.natAbs 0
  rwa [signed_natAbs, zpow_zero, mul_one] at hround

theorem mul_roundsTo {v w : Value} {x y : ℚ} (hv : v.toRat? = some x) (hw : w.toRat? = some y) :
    f.RoundsTo (x * y) (f.mul v w) := by
  obtain ⟨n₁, s₁, e₁, rfl, rfl⟩ := Value.toRat?_eq_some_iff.1 hv
  obtain ⟨n₂, s₂, e₂, rfl, rfl⟩ := Value.toRat?_eq_some_iff.1 hw
  have hround := f.round_roundsTo (n₁ ^^ n₂) (s₁ * s₂) (e₁ + e₂)
  rw [signed_xor_mul, zpow_add₀ two_ne_zero, Int.cast_mul, mul_mul_mul_comm] at hround
  exact hround

theorem add_roundsTo {v w : Value} {x y : ℚ} (hv : v.toRat? = some x) (hw : w.toRat? = some y) :
    f.RoundsTo (x + y) (f.add v w) := by
  obtain ⟨n₁, s₁, e₁, rfl, rfl⟩ := Value.toRat?_eq_some_iff.1 hv
  obtain ⟨n₂, s₂, e₂, rfl, rfl⟩ := Value.toRat?_eq_some_iff.1 hw
  obtain ⟨sum, hsum⟩ : ∃ sum, signed n₁ (s₁ <<< (e₁ - min e₁ e₂).toNat) +
    signed n₂ (s₂ <<< (e₂ - min e₁ e₂).toNat) = sum := ⟨_, rfl⟩
  -- Brought to the lower of the two exponents, the sum is exact.
  have hexact : (signed n₁ s₁ : ℚ) * 2 ^ e₁ + signed n₂ s₂ * 2 ^ e₂ = sum * 2 ^ min e₁ e₂ := by
    rw [← signed_shiftLeft_mul n₁ s₁ (min_le_left e₁ e₂),
      ← signed_shiftLeft_mul n₂ s₂ (min_le_right e₁ e₂), ← add_mul, ← hsum]
    push_cast
    rfl
  have hround := f.round_roundsTo (if sum = 0 then n₁ && n₂ else sum < 0) sum.natAbs (min e₁ e₂)
  have hsigned : signed (if sum = 0 then n₁ && n₂ else sum < 0) sum.natAbs = sum := by
    split
    · next hzero => simp [hzero, signed]
    · exact signed_natAbs sum
  rw [hexact, Format.add, hsum]
  rwa [hsigned] at hround

/-- A sum of two numbers of the grid has a nearest one. -/
theorem exists_nearestOnGrid_add {x y : ℚ} (hx : OnGrid f.precision f.minExponent x)
    (hy : OnGrid f.precision f.minExponent y) :
    ∃ z, NearestOnGrid f.precision f.minExponent (x + y) z := by
  obtain ⟨v, hv⟩ := hx.exists_toRat?
  obtain ⟨w, hw⟩ := hy.exists_toRat?
  obtain ⟨z, hz, -⟩ := f.add_roundsTo hv hw
  exact ⟨z, hz⟩

end Format

end SpeechFrame.Binary
