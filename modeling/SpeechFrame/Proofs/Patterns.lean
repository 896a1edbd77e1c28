import SpeechFrame.Proofs.FormatRounding

set_option autoImplicit false

/-! # Patterns keep the number

A datum that a format can hold is written as a pattern and read from it again. The pattern has no place
for the leading bit of a normal number, nor for the difference between the triples of one number. What
it does keep is the number, `toRat?_decode_encode`, for normal and subnormal numbers and zeros of both
signs. The wider format has a pattern for each number of the narrower one. -/

namespace SpeechFrame.Binary.Format

variable (f : Format) (negative : Bool)

/-! ## Fields of a pattern -/

theorem fields_withSign {magnitude : Nat}
    (h : magnitude < 2 ^ (f.fractionBits + f.exponentBits)) :
    f.fractionField (f.withSign negative magnitude) = magnitude % 2 ^ f.fractionBits ∧
      f.exponentField (f.withSign negative magnitude) = magnitude / 2 ^ f.fractionBits ∧
      f.signField (f.withSign negative magnitude) = negative := by
  have hpos : 0 < 2 ^ f.fractionBits := Nat.two_pow_pos _
  have hfield : magnitude / 2 ^ f.fractionBits < 2 ^ f.exponentBits := by
    rwa [Nat.div_lt_iff_lt_mul hpos, mul_comm, ← pow_add]
  unfold fractionField exponentField signField withSign
  cases negative with
  | false =>
    exact ⟨rfl, Nat.mod_eq_of_lt hfield, Nat.testBit_lt_two_pow h⟩
  | true =>
    refine ⟨?_, ?_, ?_⟩
    · rw [if_pos rfl, pow_add, Nat.mul_add_mod]
    · rw [if_pos rfl, pow_add, Nat.mul_add_div hpos, Nat.add_mod_left, Nat.mod_eq_of_lt hfield]
    · rw [if_pos rfl, Nat.testBit_two_pow_add_eq, Nat.testBit_lt_two_pow h]
      rfl

/-- A significand on the finest grid, or one with a leading bit on a grid above it, is written as the
    distance of the grids and the significand, which overlap in the leading bit. -/
theorem toRat?_decode_withSign {distance significand : Nat}
    (hbits : significand < 2 ^ f.precision)
    (hlead : distance = 0 ∨ 2 ^ f.fractionBits ≤ significand)
    (hspecial : distance + 1 < f.specialExponent) :
    (f.decode (f.withSign negative (distance * 2 ^ f.fractionBits + significand))).toRat? =
      some ((signed negative significand : ℚ) * 2 ^ (f.minExponent + distance)) := by
  have hpos : 0 < 2 ^ f.fractionBits := Nat.two_pow_pos _
  have hprecision := f.two_pow_precision
  have hmagnitude : distance * 2 ^ f.fractionBits + significand <
      2 ^ (f.fractionBits + f.exponentBits) :=
    calc distance * 2 ^ f.fractionBits + significand
        < (distance + 2) * 2 ^ f.fractionBits := by
          rw [add_mul, two_mul]
          omega
      _ ≤ 2 ^ f.exponentBits * 2 ^ f.fractionBits :=
        Nat.mul_le_mul_right _ (by unfold specialExponent at hspecial; omega)
      _ = 2 ^ (f.fractionBits + f.exponentBits) := by rw [pow_add, mul_comm]
  rw [mul_comm distance] at hmagnitude ⊢
  obtain ⟨hfraction, hexponent, hsign⟩ := f.fields_withSign negative hmagnitude
  rw [Nat.mul_add_mod] at hfraction
  rw [Nat.mul_add_div hpos] at hexponent
  rw [decode, hfraction, hexponent, hsign]
  rcases Nat.lt_or_ge significand (2 ^ f.fractionBits) with hsmall | hnormal
  · obtain rfl : distance = 0 := hlead.resolve_right (by omega)
    rw [Nat.div_eq_of_lt hsmall, Nat.mod_eq_of_lt hsmall, if_neg (by omega), if_pos rfl]
    simp [Value.toRat?]
  · obtain ⟨fraction, rfl⟩ := Nat.exists_eq_add_of_le hnormal
    have hfit : fraction < 2 ^ f.fractionBits := by omega
    rw [Nat.add_div_left _ hpos, Nat.div_eq_of_lt hfit, Nat.add_mod_left, Nat.mod_eq_of_lt hfit,
      if_neg (by omega), if_neg (by omega)]
    rfl

/-! ## Writing a magnitude -/

variable {significand : Nat} {exponent place : ℤ}

/-- A shift to a place that the number is a multiple of drops no bit. -/
theorem shiftRight_eq_of_multiple {n : ℤ} (hlt : exponent < place)
    (h : (significand : ℚ) * 2 ^ exponent = n * 2 ^ place) :
    ((significand >>> (place - exponent).toNat : ℕ) : ℤ) = n := by
  obtain ⟨shift, rfl⟩ := Int.exists_add_of_le hlt.le
  have hproduct : (significand : ℤ) = n * 2 ^ shift := by
    rw [zpow_add₀ two_ne_zero, zpow_natCast, mul_comm ((2 : ℚ) ^ exponent), ← mul_assoc] at h
    have hcancel := mul_right_cancel₀ (by positivity) h
    exact_mod_cast hcancel
  have hcount : (exponent + shift - exponent).toNat = shift := by omega
  rw [hcount, Nat.shiftRight_eq_div_pow]
  push_cast
  rw [hproduct, Int.mul_ediv_cancel n (by positivity)]

/-- A magnitude of the grid is written as the distance of its last place from the finest grid and its
    significand there. -/
theorem exists_encodeMagnitude_eq (hne : significand ≠ 0)
    (h : OnGrid f.precision f.minExponent (significand * 2 ^ exponent)) :
    ∃ aligned : Nat,
      (significand : ℚ) * 2 ^ exponent = aligned * 2 ^ f.lastPlace significand exponent ∧
      f.encodeMagnitude significand exponent =
        (f.lastPlace significand exponent - f.minExponent).toNat * 2 ^ f.fractionBits + aligned := by
  rw [encodeMagnitude]
  have hplace : f.lastPlace significand exponent =
    max (significand.log2 + 1 + exponent - f.precision) f.minExponent := rfl
  generalize f.lastPlace significand exponent = place at hplace
  rcases le_or_gt place exponent with hge | hlt
  · obtain ⟨shift, rfl⟩ := Int.exists_add_of_le hge
    have hcount : (place + shift - place).toNat = shift := by omega
    refine ⟨significand <<< shift, ?_, by rw [if_pos hge, hcount]⟩
    rw [Nat.shiftLeft_eq, zpow_add₀ two_ne_zero, zpow_natCast]
    push_cast
    ring
  · have hcoarse : OnGrid f.precision place (significand * 2 ^ exponent) := by
      refine (h.coarse_or_lt place).resolve_right fun ⟨hfine, hsmall⟩ => ?_
      rw [abs_of_nonneg (by positivity), ← not_le, two_zpow_le_natCast_mul_iff hne] at hsmall
      omega
    obtain ⟨n, hn⟩ := hcoarse.exists_multiple
    have haligned := shiftRight_eq_of_multiple hlt hn
    refine ⟨significand >>> (place - exponent).toNat, ?_, by rw [if_neg (not_le.2 hlt)]⟩
    rw [hn, ← haligned, Int.cast_natCast]

/-- At its last place a number has no more bits than the format, and as many if that place is not the
    finest. -/
theorem aligned_bounds {aligned : Nat} (hne : significand ≠ 0)
    (h : (significand : ℚ) * 2 ^ exponent = aligned * 2 ^ f.lastPlace significand exponent) :
    aligned < 2 ^ f.precision ∧
      (f.lastPlace significand exponent = f.minExponent ∨ 2 ^ f.fractionBits ≤ aligned) := by
  have hreach := two_zpow_le_natCast_mul_iff hne (e := exponent)
  have hplace : f.lastPlace significand exponent =
    max (significand.log2 + 1 + exponent - (f.fractionBits + 1 : ℕ)) f.minExponent := rfl
  have hprecision : f.precision = f.fractionBits + 1 := rfl
  generalize f.lastPlace significand exponent = place at h hplace
  have hpos : (0 : ℚ) < 2 ^ place := by positivity
  have hreach' : ∀ k : Nat, 2 ^ k ≤ aligned ↔ k + place ≤ significand.log2 + exponent := by
    intro k
    rw [← hreach, h, zpow_add₀ two_ne_zero, zpow_natCast, mul_le_mul_iff_left₀ hpos]
    norm_cast
  rw [← not_le, hreach', hreach']
  omega

/-- The distance of the grids fits the field it is written to, below the special exponent. -/
theorem distance_lt_specialExponent {leading : ℤ} (hexponent : 2 ≤ f.exponentBits)
    (hleading : leading ≤ f.maxExponent) :
    (max (leading + 1 - f.precision) f.minExponent - f.minExponent).toNat + 1 <
      f.specialExponent := by
  obtain ⟨rest, hrest⟩ := Nat.exists_eq_add_of_le' hexponent
  have hmax : f.maxExponent = 2 ^ (rest + 1) - 1 := by
    rw [maxExponent, hrest]
    rfl
  have hspecial : f.specialExponent = 2 ^ (rest + 1) * 2 - 1 := by
    rw [specialExponent, hrest, ← pow_succ]
  have hlarge : 2 ≤ 2 ^ (rest + 1) := Nat.le_self_pow (Nat.succ_ne_zero rest) 2
  have hlarge' : (2 : ℤ) ^ (rest + 1) = (2 ^ (rest + 1) : ℕ) := by norm_cast
  have hprecision : (f.precision : ℤ) = f.fractionBits + 1 := rfl
  have hleast : f.minExponent = 1 - f.maxExponent - f.fractionBits := rfl
  omega

/-- The pattern of a magnitude of the grid denotes it, under either sign. -/
theorem toRat?_decode_encodeMagnitude (hexponent : 2 ≤ f.exponentBits) (hne : significand ≠ 0)
    (hgrid : OnGrid f.precision f.minExponent (significand * 2 ^ exponent))
    (hleading : significand.log2 + exponent ≤ f.maxExponent) :
    (f.decode (f.withSign negative (f.encodeMagnitude significand exponent))).toRat? =
      some ((signed negative significand : ℚ) * 2 ^ exponent) := by
  obtain ⟨aligned, heq, hwritten⟩ := f.exists_encodeMagnitude_eq hne hgrid
  obtain ⟨hbits, hlead⟩ := f.aligned_bounds hne heq
  have hspecial := f.distance_lt_specialExponent hexponent hleading
  have hplace : f.lastPlace significand exponent =
      max (significand.log2 + exponent + 1 - f.precision) f.minExponent := by
    rw [lastPlace, add_right_comm]
  rw [← hplace] at hspecial
  have hdistance : f.minExponent + (f.lastPlace significand exponent - f.minExponent).toNat =
      f.lastPlace significand exponent := by omega
  rw [hwritten, f.toRat?_decode_withSign negative hbits (hlead.imp_left (by omega)) hspecial,
    hdistance, signed_mul_congr negative heq]

/-- **Writing keeps the number.** The pattern of a datum that the format can hold denotes the number
    that the datum does. -/
theorem toRat?_decode_encode (hexponent : 2 ≤ f.exponentBits) {v : Value} {x : ℚ}
    (hv : v.toRat? = some x) (hx : f.Holds x) : (f.decode (f.encode v)).toRat? = some x := by
  obtain ⟨hgrid, hsmall⟩ := hx
  cases v with
  | nan => cases hv
  | infinity negative => cases hv
  | finite negative significand exponent =>
    cases hv
    rw [abs_signed_mul_two_zpow] at hsmall
    rw [encode]
    rcases eq_or_ne significand 0 with rfl | hne
    · have hspecial : 0 + 1 < f.specialExponent := by
        have := Nat.pow_le_pow_right two_pos hexponent
        unfold specialExponent
        omega
      have hzero := f.toRat?_decode_withSign negative (Nat.two_pow_pos f.precision) (.inl rfl) hspecial
      simpa [signed] using hzero
    · have hmagnitude : OnGrid f.precision f.minExponent (significand * 2 ^ exponent) := by
        cases negative with
        | false => exact hgrid
        | true => simpa [signed] using hgrid.neg
      rw [← not_le, two_zpow_le_natCast_mul_iff hne] at hsmall
      rw [if_neg hne]
      exact f.toRat?_decode_encodeMagnitude negative hexponent hne hmagnitude (by omega)

end SpeechFrame.Binary.Format

namespace SpeechFrame.Binary

/-! ## Words -/

/-- A word has room for all bits that a pattern is read from. -/
theorem Format.decode_mod (f : Format) {width : Nat} (h : f.fractionBits + f.exponentBits < width)
    (bits : Nat) : f.decode (bits % 2 ^ width) = f.decode bits := by
  obtain ⟨rest, rfl⟩ := Nat.exists_eq_add_of_lt h
  have hfraction : f.fractionField (bits % 2 ^ (f.fractionBits + f.exponentBits + rest + 1)) =
      f.fractionField bits :=
    Nat.mod_mod_of_dvd bits (Nat.pow_dvd_pow 2 (by omega))
  have hexponent : f.exponentField (bits % 2 ^ (f.fractionBits + f.exponentBits + rest + 1)) =
      f.exponentField bits := by
    rw [exponentField, exponentField, add_assoc, add_assoc, pow_add, Nat.mod_mul_right_div_self]
    exact Nat.mod_mod_of_dvd _ (Nat.pow_dvd_pow 2 (by omega))
  have hsign : f.signField (bits % 2 ^ (f.fractionBits + f.exponentBits + rest + 1)) =
      f.signField bits := by
    rw [signField, signField, Nat.testBit_mod_two_pow, decide_eq_true h, Bool.true_and]
  rw [decode, decode, hfraction, hexponent, hsign]

/-- A datum that a word can hold keeps its number in the word. -/
theorem toRat?_ofBits32_toBits32 {v : Value} {x : ℚ} (hv : v.toRat? = some x)
    (hx : single.Holds x) : (Value.ofBits32 v.toBits32).toRat? = some x := by
  rw [Value.ofBits32, Value.toBits32, UInt32.toNat_ofNat', single.decode_mod (by decide)]
  exact single.toRat?_decode_encode (by decide) hv hx

theorem toRat?_ofBits64_toBits64 {v : Value} {x : ℚ} (hv : v.toRat? = some x)
    (hx : double.Holds x) : (Value.ofBits64 v.toBits64).toRat? = some x := by
  rw [Value.ofBits64, Value.toBits64, UInt64.toNat_ofNat', double.decode_mod (by decide)]
  exact double.toRat?_decode_encode (by decide) hv hx

/-! ## The wider format -/

/-- The wider format holds what the narrower one does. -/
theorem holds_double_of_decode {bits : Nat} {x : ℚ} (h : (single.decode bits).toRat? = some x) :
    double.Holds x := by
  obtain ⟨hgrid, hsmall⟩ := single.holds_of_decode (by decide) h
  exact ⟨(hgrid.of_precision_le (by decide)).of_le (by decide),
    hsmall.trans (zpow_lt_zpow_right₀ one_lt_two (by decide))⟩

end SpeechFrame.Binary
