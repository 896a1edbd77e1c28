import SpeechFrame.Proofs.FloatLibrary
import SpeechFrame.Proofs.WordRounding

set_option autoImplicit false

/-! # From floating point to an integer

A datum becomes an integer at scale `q` in steps that each might lose something: the scale is clamped
to a signed word, the datum is scaled in its own format, and the result is rounded to an integer and
clamped to a word. This file shows that of these only the last rounding and the last clamp are seen,
whatever lawful library scales and rounds. Scaling up keeps all bits; a result that overflows the
format is far outside of every word, on the side where it belongs; and a scale that needs clamping is
one at which nothing but zero is left inside a word. -/

namespace SpeechFrame.Fixed

open Binary

variable {lib : FloatLibrary} {v w : Value} {x : ℚ} {q : Nat}

/-! ## Rounding into a word -/

/-- A number of the format that lies in a word is rounded to an integer of the word. -/
theorem nearestEven_mem_word (hx : OnGrid single.precision single.minExponent x)
    (hlow : -2 ^ 31 ≤ x) (hhigh : x < 2 ^ 31) :
    -2 ^ 31 ≤ nearestEven x ∧ nearestEven x < 2 ^ 31 := by
  rcases hx.nearestEven_eq_or_le single.precision_pos with ⟨hinteger, -⟩ | hsmall
  · rw [← hinteger] at hlow hhigh
    exact ⟨by exact_mod_cast hlow, by exact_mod_cast hhigh⟩
  · have hbits : |nearestEven x| ≤ 2 ^ 23 := hsmall
    rw [abs_le] at hbits
    omega

/-- A number of the format becomes the nearest integer of the word. -/
theorem toInt_nearestInt32 (hlib : lib.Lawful) (hv : v.toRat? = some x) (hx : single.Holds x) :
    (nearestInt32 lib v).toInt = saturate (nearestEven x) := by
  rw [nearestInt32, toInt_truncateInt32 (hlib.toRat?_nearest v x hv hx), truncate_intCast]

theorem toInt_nearestInt32_infinity (hlib : lib.Lawful) (negative : Bool) :
    (nearestInt32 lib (.infinity negative)).toInt = if negative then -2 ^ 31 else 2 ^ 31 - 1 := by
  rw [nearestInt32, hlib.nearest_infinity, toInt_truncateInt32_infinity]

theorem nearestInt32_nan (hlib : lib.Lawful) : nearestInt32 lib .nan = 0 := by
  rw [nearestInt32, hlib.nearest_nan]
  rfl

/-! ## Scaling up -/

theorem toInt_exponent (q : Nat) : (exponent q).toInt = min q (2 ^ 31 - 1) := by
  unfold exponent
  split
  · next hlt =>
    rw [Int32.toInt_ofNat_of_lt hlt]
    omega
  · next hge =>
    rw [Int32.toInt_maxValue]
    omega

theorem toInt_neg_exponent (q : Nat) : (-exponent q).toInt = -min q (2 ^ 31 - 1) := by
  rw [Int32.toInt_neg, toInt_exponent]
  exact Int.bmod_eq_of_le (by omega) (by omega)

/-- Overflow of the format does not show in a word. -/
theorem toInt_nearestInt32_of_roundsTo (hlib : lib.Lawful) (hw : single.RoundsTo x w)
    (hx : OnGrid single.precision single.minExponent x) :
    (nearestInt32 lib w).toInt = saturate (nearestEven x) := by
  obtain ⟨y, hnearest, hfinite, hinfinite⟩ := hw
  obtain rfl := hnearest.eq_self hx
  rcases lt_or_ge |y| (2 ^ (single.maxExponent + 1)) with hsmall | hlarge
  · exact toInt_nearestInt32 hlib (hfinite hsmall) ⟨hx, hsmall⟩
  · rw [hinfinite hlarge, toInt_nearestInt32_infinity hlib,
      nearestEven_rule.saturate_of_large (by decide) hlarge]
    simp only [decide_eq_true_eq]

/-- At a scale far enough out, nothing but zero is left inside a word. -/
theorem saturate_nearestEven_of_far (hx : OnGrid single.precision single.minExponent x)
    (hne : x ≠ 0) {n : ℤ} (hn : 180 ≤ n) :
    saturate (nearestEven (x * 2 ^ n)) = if x < 0 then -2 ^ 31 else 2 ^ 31 - 1 := by
  have hleast : single.minExponent = -149 := rfl
  have hpos : (0 : ℚ) < 2 ^ n := by positivity
  have hreach := (hx.mul_two_zpow n).two_zpow_le_abs (mul_ne_zero hne hpos.ne')
  have hsign : x * 2 ^ n < 0 ↔ x < 0 := by
    rw [← not_le, ← not_le, mul_nonneg_iff_of_pos_right hpos]
  rw [nearestEven_rule.saturate_of_large (by omega) hreach]
  simp only [hsign]

/-- The clamp of the scale does not show in a word. -/
theorem saturate_nearestEven_exponent (hx : OnGrid single.precision single.minExponent x) (q : Nat) :
    saturate (nearestEven (x * 2 ^ (exponent q).toInt)) = saturate (nearestEven (x * 2 ^ q)) := by
  have hexponent := toInt_exponent q
  rcases Nat.lt_or_ge q (2 ^ 31) with hlt | hge
  · rw [hexponent, min_eq_left (by omega), zpow_natCast]
  · rcases eq_or_ne x 0 with rfl | hne
    · rw [zero_mul, zero_mul]
    · have hclamped : 180 ≤ (exponent q).toInt := by omega
      have hscale : 180 ≤ (q : ℤ) := by omega
      rw [← zpow_natCast, saturate_nearestEven_of_far hx hne hclamped,
        saturate_nearestEven_of_far hx hne hscale]

/-- The law of conversion for the data of the format: one rounding, and one saturation. -/
theorem toInt_ofFloat (hlib : lib.Lawful) (hv : v.toRat? = some x) (hx : single.Holds x) (q : Nat) :
    (ofFloat lib v q).toInt = saturate (nearestEven (x * 2 ^ q)) := by
  have hexponent := toInt_exponent q
  have hfiner : OnGrid single.precision single.minExponent (x * 2 ^ (exponent q).toInt) :=
    (hx.1.mul_two_zpow (exponent q).toInt).of_le (by omega)
  rw [ofFloat, toInt_nearestInt32_of_roundsTo hlib (hlib.scale_roundsTo v x _ hv hx) hfiner,
    saturate_nearestEven_exponent hx.1]

theorem toInt_ofFloat_infinity (hlib : lib.Lawful) (negative : Bool) (q : Nat) :
    (ofFloat lib (.infinity negative) q).toInt = if negative then -2 ^ 31 else 2 ^ 31 - 1 := by
  rw [ofFloat, hlib.scale_infinity, toInt_nearestInt32_infinity hlib]

theorem ofFloat_nan (hlib : lib.Lawful) (q : Nat) : ofFloat lib .nan q = 0 := by
  rw [ofFloat, hlib.scale_nan, nearestInt32_nan hlib]

/-! ## Narrower words -/

/-- Clamping to the wider word first does not show. -/
theorem toInt_ofFloat16 (lib : FloatLibrary) (v : Value) (q : Nat) :
    (ofFloat16 lib v q).toInt = max (-2 ^ 15) (min (ofFloat lib v q).toInt (2 ^ 15 - 1)) := by
  rw [ofFloat16, toInt_ofIntClamp16]

/-! ## Every pattern -/

/-- The integer from `low` to `high` that is nearest to a datum at scale `q`, ties to even. What lies
    beyond an end goes to that end, and what is not a number to zero. -/
def nearestIn (low high : ℤ) (q : Nat) : Value → ℤ
  | .nan => 0
  | .infinity negative => if negative then low else high
  | .finite negative significand exponent =>
    max low (min (nearestEven (signed negative significand * 2 ^ exponent * 2 ^ q)) high)

theorem toInt_ofFloat_eq_nearestIn (hlib : lib.Lawful)
    (hholds : ∀ x, v.toRat? = some x → single.Holds x) (q : Nat) :
    (ofFloat lib v q).toInt = nearestIn (-2 ^ 31) (2 ^ 31 - 1) q v := by
  cases v with
  | nan =>
    rw [ofFloat_nan hlib]
    rfl
  | infinity negative => exact toInt_ofFloat_infinity hlib negative q
  | finite negative significand exponent => exact toInt_ofFloat hlib rfl (hholds _ rfl) q

/-- The narrower range may be applied behind the wider one. -/
theorem nearestIn_nearestIn (v : Value) (q : Nat) :
    max (-2 ^ 15) (min (nearestIn (-2 ^ 31) (2 ^ 31 - 1) q v) (2 ^ 15 - 1)) =
      nearestIn (-2 ^ 15) (2 ^ 15 - 1) q v := by
  cases v with
  | nan => rfl
  | infinity negative => cases negative <;> rfl
  | finite negative significand exponent =>
    simp only [nearestIn]
    omega

/-- **Conversion from floating point is exact, but for one rounding and one saturation.** With a lawful
    library, every pattern at every scale gives the nearest integer of the word, ties to even, with
    infinities at the ends and zero for what is not a number. This holds of words of both widths; and
    as many data as there are taps to fill give each its own number at its own index. -/
theorem ofFloat_exact (hlib : lib.Lawful) (bits : UInt32) (q : Nat) :
    (ofFloat lib (Value.ofBits32 bits) q).toInt =
        nearestIn (-2 ^ 31) (2 ^ 31 - 1) q (Value.ofBits32 bits) ∧
      (ofFloat16 lib (Value.ofBits32 bits) q).toInt =
        nearestIn (-2 ^ 15) (2 ^ 15 - 1) q (Value.ofBits32 bits) ∧
      ∀ (taps : Nat) (out : Vector Int16 taps) (xs : Array Value), xs.size = taps →
        ∃ filled, ofFloats16 lib out xs q = .ok filled ∧
          filled.toArray = xs.map fun v => ofFloat16 lib v q := by
  have hword := toInt_ofFloat_eq_nearestIn hlib (v := Value.ofBits32 bits)
    (fun x hx => single.holds_of_decode (by decide) hx) q
  refine ⟨hword, ?_, fun taps out xs hsize => ofFloats16_of_size lib out hsize q⟩
  rw [toInt_ofFloat16, hword, nearestIn_nearestIn]

/-- The smallest negative number, at a scale that does not fit a signed word; and two data for two
    taps, a tie and a number out of range. -/
theorem ofFloat_exact_of_smallest_and_taps :
    FloatLibrary.exact.Lawful ∧
      (ofFloat .exact (Value.ofBits32 0x80000001) 4294967295).toInt =
        nearestIn (-2 ^ 31) (2 ^ 31 - 1) 4294967295 (Value.ofBits32 0x80000001) ∧
      ofFloat .exact (Value.ofBits32 0x80000001) 4294967295 = Int32.minValue ∧
      #[Value.ofBits32 0x40200000, Value.ofBits32 0xC7800001].size = 2 ∧
      ∃ filled, ofFloats16 .exact #v[7, 7]
          #[Value.ofBits32 0x40200000, Value.ofBits32 0xC7800001] 0 = .ok filled ∧
        filled.toArray = #[2, -32768] := by
  have hfar := (ofFloat_exact FloatLibrary.exact_lawful 0x80000001 4294967295).1
  obtain ⟨filled, hfilled, helements⟩ := (ofFloat_exact FloatLibrary.exact_lawful 0 0).2.2 2 #v[7, 7]
    #[Value.ofBits32 0x40200000, Value.ofBits32 0xC7800001] rfl
  have hnumbers : [Value.ofBits32 0x40200000, Value.ofBits32 0xC7800001].map
      (fun v => ofFloat16 .exact v 0) = [2, -32768] := by decide
  rw [List.map_toArray, hnumbers] at helements
  exact ⟨FloatLibrary.exact_lawful, hfar, by decide, rfl, filled, hfilled, helements⟩

end SpeechFrame.Fixed
