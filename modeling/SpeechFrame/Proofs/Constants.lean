import SpeechFrame.Proofs.WordRounding

set_option autoImplicit false

/-! # The order of constants

A constant is brought to a scale by a product and a sum, each of which rounds once and may overflow,
and by a cut toward zero that saturates. Each of these steps keeps the order, and so does their
composition. The law that says what comes out, `ofConstant_constantAt`, mentions no overflow, because
none shows in a word.

What the steps start from is the number one at the scale, in a signed word of 64 bits. At the top scale
that word has nothing but its sign bit, the factor is negative, and the order of all constants is
turned round: `not_monotone_at_top_scale`. -/

namespace SpeechFrame.Fixed

open Binary

variable {v : Value} {x y : ℚ} {m n : ℤ} {q : Nat}

/-! ## The number one at a scale -/

theorem toInt_wideOne_of_lt (hq : q < 63) : (wideOne q).toInt = 2 ^ q := by
  have hbound : (2 : ℤ) ^ q < 2 ^ 63 := pow_lt_pow_right₀ one_lt_two hq
  have hpos : (0 : ℤ) < 2 ^ q := by positivity
  rw [wideOne, toInt_shiftLeft _ (by omega), Int64.toInt_one, one_mul]
  exact bmod_eq_self (by omega) hbound

theorem toInt_wideOne_top : (wideOne 63).toInt = -2 ^ 63 := by decide

theorem exists_toInt_wideOne_eq (hq : q < 64) :
    ∃ sign : ℤ, |sign| = 1 ∧ (wideOne q).toInt = sign * 2 ^ q := by
  rcases Nat.lt_or_ge q 63 with hlt | hge
  · exact ⟨1, rfl, by rw [toInt_wideOne_of_lt hlt, one_mul]⟩
  · obtain rfl : q = 63 := by omega
    exact ⟨-1, rfl, by decide⟩

/-- It is read without loss. -/
theorem toRat?_ofInt_wideOne (hq : q < 64) :
    (double.ofInt (wideOne q).toInt).toRat? = some ((wideOne q).toInt : ℚ) := by
  obtain ⟨sign, hsign, hword⟩ := exists_toInt_wideOne_eq hq
  have hsign' : |(sign : ℚ)| = 1 := by exact_mod_cast hsign
  have hfactor : ((wideOne q).toInt : ℚ) = sign * 2 ^ (q : ℤ) := by
    rw [hword, zpow_natCast]
    push_cast
    rfl
  refine (double.ofInt_roundsTo _).toRat?_eq ⟨⟨sign, q, ?_, ?_, hfactor⟩, ?_⟩
  · rw [hsign]
    decide
  · exact (show double.minExponent ≤ 0 by decide).trans (by positivity)
  · have htop : (q : ℤ) < double.maxExponent + 1 := by
      have hmax : double.maxExponent = 1023 := rfl
      omega
    rw [hfactor, abs_mul, hsign', one_mul, abs_of_pos (by positivity)]
    exact zpow_lt_zpow_right₀ one_lt_two htop

/-! ## What becomes of a constant -/

theorem onGrid_half : OnGrid double.precision double.minExponent (1 / 2) :=
  ⟨1, -1, by decide, by decide, by norm_num⟩

/-- The integer of a constant at a scale: the product is rounded once, one half is added and the sum is
    rounded once, and its integer part goes to the nearer end of the word if it is out of range. -/
def ConstantAt (q : Nat) (x : ℚ) (n : ℤ) : Prop :=
  ∃ product raised, NearestOnGrid double.precision double.minExponent (x * (wideOne q).toInt) product ∧
    NearestOnGrid double.precision double.minExponent (product + 1 / 2) raised ∧
    n = saturate (truncate raised)

/-- A product far beyond the word stays beyond it when it is raised. -/
theorem saturate_truncate_of_far {product raised : ℚ} (hfar : 2 ^ 32 ≤ |product|)
    (h : NearestOnGrid double.precision double.minExponent (product + 1 / 2) raised) :
    saturate (truncate raised) = if product < 0 then -2 ^ 31 else 2 ^ 31 - 1 := by
  have hend : OnGrid double.precision double.minExponent (2 ^ 31) :=
    ⟨1, 31, by decide, by decide, by norm_num⟩
  split
  · next hneg =>
    rw [abs_of_neg hneg] at hfar
    exact truncate_rule.saturate_of_le (h.mono hend.neg.nearestOnGrid_self (by linarith))
  · next hnonneg =>
    rw [abs_of_nonneg (not_lt.1 hnonneg)] at hfar
    exact truncate_rule.saturate_of_ge (hend.nearestOnGrid_self.mono h (by linarith))

/-- The law of constants. Every scale below the width of the wide word is accepted. -/
theorem ofConstant_constantAt (hv : v.toRat? = some x) (hq : q < 64) :
    ∃ n, ofConstant v q = .ok n ∧ ConstantAt q x n.toInt := by
  obtain ⟨product, hproduct, hfinite, hinfinite⟩ :=
    double.mul_roundsTo hv (toRat?_ofInt_wideOne hq)
  have hhalf : (Value.finite false 1 (-1)).toRat? = some (1 / 2) := by
    norm_num [Value.toRat?, signed]
  rw [ofConstant, if_pos hq]
  refine ⟨_, rfl, ?_⟩
  rcases lt_or_ge |product| (2 ^ (double.maxExponent + 1)) with hsmall | hlarge
  · obtain ⟨raised, hraised, hinteger⟩ := toInt_truncateInt32_of_roundsTo (by decide)
      (double.add_roundsTo (hfinite hsmall) hhalf)
    exact ⟨product, raised, hproduct, hraised, hinteger⟩
  · obtain ⟨raised, hraised⟩ := double.exists_nearestOnGrid_add hproduct.onGrid onGrid_half
    refine ⟨product, raised, hproduct, hraised, ?_⟩
    have hword : (2 : ℚ) ^ (32 : ℕ) ≤ 2 ^ (double.maxExponent + 1) := by
      rw [← zpow_natCast]
      exact zpow_le_zpow_right₀ one_le_two (by decide)
    rw [saturate_truncate_of_far (hword.trans hlarge) hraised, hinfinite hlarge]
    -- One half more is the same infinity.
    have hend := toInt_truncateInt32_infinity (product < 0)
    simp only [decide_eq_true_eq] at hend
    exact hend

namespace ConstantAt

theorem mono (hm : ConstantAt q x m) (hn : ConstantAt q y n)
    (hle : x * (wideOne q).toInt ≤ y * (wideOne q).toInt) : m ≤ n := by
  obtain ⟨product, raised, hproduct, hraised, rfl⟩ := hm
  obtain ⟨product', raised', hproduct', hraised', rfl⟩ := hn
  have hfirst := hproduct.mono hproduct' hle
  have hsecond := hraised.mono hraised' (by linarith)
  exact saturate_monotone (truncate_monotone hsecond)

theorem unique (hm : ConstantAt q x m) (hn : ConstantAt q x n) : m = n :=
  le_antisymm (hm.mono hn le_rfl) (hn.mono hm le_rfl)

theorem zero (q : Nat) : ConstantAt q 0 0 := by
  have hzero : OnGrid double.precision double.minExponent 0 := ⟨0, 0, by decide, by decide, by simp⟩
  have hcut : truncate (1 / 2) = 0 := by
    rw [truncate_of_nonneg (by norm_num), Int.floor_eq_zero_iff]
    norm_num
  refine ⟨0, 1 / 2, ?_, ?_, by rw [hcut]; rfl⟩
  · rw [zero_mul]
    exact hzero.nearestOnGrid_self
  · rw [zero_add]
    exact onGrid_half.nearestOnGrid_self

end ConstantAt

/-- Nothing of a constant matters but its number. -/
theorem ofConstant_congr {w : Value} (hv : v.toRat? = some x) (hw : w.toRat? = some x) (q : Nat) :
    ofConstant v q = ofConstant w q := by
  by_cases hq : q < 64
  · obtain ⟨m, hm, hleft⟩ := ofConstant_constantAt hv hq
    obtain ⟨n, hn, hright⟩ := ofConstant_constantAt hw hq
    rw [hm, hn, Int32.toInt_inj.1 (hleft.unique hright)]
  · rw [ofConstant, ofConstant, if_neg hq, if_neg hq]

/-! ## Their order -/

theorem toRat?_zero64 : (Value.ofBits64 0).toRat? = some 0 := by
  have hdatum : Value.ofBits64 0 = .finite false 0 (-1074) := by decide
  rw [hdatum, Value.toRat?]
  norm_num [signed]

theorem toRat?_one64 : (Value.ofBits64 0x3FF0000000000000).toRat? = some 1 := by
  have hdatum : Value.ofBits64 0x3FF0000000000000 = .finite false 4503599627370496 (-52) := by decide
  rw [hdatum, Value.toRat?]
  norm_num [signed]

/-- **Constants keep their order**, at every scale below the top one, through both roundings, overflow,
    the cut and saturation; in particular, no constant that is not negative becomes a negative integer.
    At the top scale, which is accepted as well, they come out in the opposite order. -/
theorem ofConstant_monotone {v w : UInt64} (hv : (Value.ofBits64 v).toRat? = some x)
    (hw : (Value.ofBits64 w).toRat? = some y) (hle : x ≤ y) (hq : q < 64) :
    ∃ m n, ofConstant (Value.ofBits64 v) q = .ok m ∧ ofConstant (Value.ofBits64 w) q = .ok n ∧
      (q < 63 → m ≤ n ∧ (0 ≤ x → 0 ≤ m)) ∧ (q = 63 → n ≤ m) := by
  obtain ⟨m, hm, hlow⟩ := ofConstant_constantAt hv hq
  obtain ⟨n, hn, hhigh⟩ := ofConstant_constantAt hw hq
  refine ⟨m, n, hm, hn, fun hlt => ?_, ?_⟩
  · have hpos : (0 : ℚ) < (wideOne q).toInt := by
      rw [toInt_wideOne_of_lt hlt]
      positivity
    refine ⟨?_, fun hnonneg => ?_⟩
    · rw [Int32.le_iff_toInt_le]
      exact hlow.mono hhigh (mul_le_mul_of_nonneg_right hle hpos.le)
    · rw [Int32.le_iff_toInt_le]
      exact (ConstantAt.zero q).mono hlow (mul_le_mul_of_nonneg_right hnonneg hpos.le)
  · rintro rfl
    rw [Int32.le_iff_toInt_le]
    refine hhigh.mono hlow (mul_le_mul_of_nonpos_right hle ?_)
    rw [toInt_wideOne_top]
    norm_num

/-- The two greatest magnitudes of the format, which overflow at the last scale that keeps the order;
    and zero and one at the top scale, where one becomes the least integer. -/
theorem ofConstant_monotone_of_overflow :
    (Value.ofBits64 0xFFEFFFFFFFFFFFFF).toRat? = some (-9007199254740991 * 2 ^ (971 : ℤ)) ∧
      (Value.ofBits64 0x7FEFFFFFFFFFFFFF).toRat? = some (9007199254740991 * 2 ^ (971 : ℤ)) ∧
      (-9007199254740991 * 2 ^ (971 : ℤ) : ℚ) ≤ 9007199254740991 * 2 ^ (971 : ℤ) ∧ 62 < 64 ∧
      (∃ m n, ofConstant (Value.ofBits64 0xFFEFFFFFFFFFFFFF) 62 = .ok m ∧
        ofConstant (Value.ofBits64 0x7FEFFFFFFFFFFFFF) 62 = .ok n ∧ m ≤ n) ∧
      (Value.ofBits64 0).toRat? = some 0 ∧ (Value.ofBits64 0x3FF0000000000000).toRat? = some 1 ∧
      (0 : ℚ) ≤ 1 ∧ 63 < 64 ∧
      ∃ m n, ofConstant (Value.ofBits64 0) 63 = .ok m ∧
        ofConstant (Value.ofBits64 0x3FF0000000000000) 63 = .ok n ∧ n ≤ m := by
  have hleast : (Value.ofBits64 0xFFEFFFFFFFFFFFFF).toRat? =
      some (-9007199254740991 * 2 ^ (971 : ℤ)) := by
    have hdatum : Value.ofBits64 0xFFEFFFFFFFFFFFFF = .finite true 9007199254740991 971 := by decide
    rw [hdatum, Value.toRat?]
    norm_num [signed]
  have hgreatest : (Value.ofBits64 0x7FEFFFFFFFFFFFFF).toRat? =
      some (9007199254740991 * 2 ^ (971 : ℤ)) := by
    have hdatum : Value.ofBits64 0x7FEFFFFFFFFFFFFF = .finite false 9007199254740991 971 := by decide
    rw [hdatum, Value.toRat?]
    norm_num [signed]
  have hle : (-9007199254740991 * 2 ^ (971 : ℤ) : ℚ) ≤ 9007199254740991 * 2 ^ (971 : ℤ) := by
    norm_num
  obtain ⟨m, n, hm, hn, hkept, -⟩ :=
    ofConstant_monotone hleast hgreatest hle (show 62 < 64 by decide)
  obtain ⟨m', n', hm', hn', -, hturned⟩ :=
    ofConstant_monotone toRat?_zero64 toRat?_one64 zero_le_one (show 63 < 64 by decide)
  exact ⟨hleast, hgreatest, hle, by decide, ⟨m, n, hm, hn, (hkept (by decide)).1⟩, toRat?_zero64,
    toRat?_one64, zero_le_one, by decide, ⟨m', n', hm', hn', hturned rfl⟩⟩

/-- At the top scale zero stays zero and one becomes the least integer, so the order of constants is
    not kept at every scale that is accepted. -/
theorem not_monotone_at_top_scale :
    ¬ ∀ (q : Nat) (v w : UInt64) (x y : ℚ) (m n : Int32),
      (Value.ofBits64 v).toRat? = some x → (Value.ofBits64 w).toRat? = some y → x ≤ y →
      ofConstant (Value.ofBits64 v) q = .ok m → ofConstant (Value.ofBits64 w) q = .ok n → m ≤ n := by
  intro h
  have hturned := h 63 0 0x3FF0000000000000 0 1 0 Int32.minValue toRat?_zero64 toRat?_one64
    zero_le_one rfl rfl
  exact absurd hturned (by decide)

end SpeechFrame.Fixed
