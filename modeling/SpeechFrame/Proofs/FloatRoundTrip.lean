import SpeechFrame.Proofs.FromFloat
import SpeechFrame.Proofs.Patterns

set_option autoImplicit false

/-! # Between floating point and integers, there and back

An integer has up to 31 bits and its sign, and a datum of the format has 24. So an integer that
becomes a datum at scale `q` may lose bits, once, when it is read as a datum; and a datum that becomes
an integer may lose bits, once, when it is rounded to one. This file shows that the way back loses
nothing in either case, for every scale up to 149, at which the last place of the format is one. The
reason is the same in both: integers of 24 significant bits, divided by such a power of two, are still
on the grid of the format, its smallest numbers included. It takes a lawful library, and no more. -/

namespace SpeechFrame.Fixed

open Binary

variable {lib : FloatLibrary} {q : Nat}

/-! ## Integers as data -/

/-- An integer of a word is read as the number nearest to it among those of 24 significant bits. -/
theorem toRat?_ofInt {n : Int32} {r : ℚ} (hr : NearestOnGrid 24 0 n.toInt r) :
    (single.ofInt n.toInt).toRat? = some r ∧ |r| ≤ 2 ^ 31 := by
  obtain ⟨y, hnearest, hfinite, -⟩ := single.ofInt_roundsTo n.toInt
  have hinteger : OnGrid 24 0 y := hnearest.onGrid_zero (by decide) (by decide)
  obtain rfl : y = r := (hnearest.of_le (by decide) hinteger).unique hr
  have hlow := n.le_toInt
  have hhigh := n.toInt_lt
  have hpower : OnGrid 24 0 (2 ^ 31) := ⟨1, 31, by decide, by decide, by norm_num⟩
  have hword : |y| ≤ 2 ^ 31 :=
    hr.abs_le_of_abs_le hpower (by exact_mod_cast abs_le.2 ⟨hlow, hhigh.le⟩)
  refine ⟨hfinite (hword.trans_lt ?_), hword⟩
  rw [← zpow_natCast]
  exact zpow_lt_zpow_right₀ one_lt_two (by decide)

/-- Some integer is nearest to an integer among those of 24 significant bits. -/
theorem exists_nearestOnGrid (n : Int32) : ∃ r : ℤ, NearestOnGrid 24 0 n.toInt r := by
  obtain ⟨y, hnearest, -⟩ := single.ofInt_roundsTo n.toInt
  have hinteger : OnGrid 24 0 y := hnearest.onGrid_zero (by decide) (by decide)
  obtain ⟨r, hr⟩ := hinteger.exists_multiple
  rw [zpow_zero, mul_one] at hr
  exact ⟨r, hr ▸ hnearest.of_le (by decide) hinteger⟩

/-- An integer of 24 significant bits over such a power of two is a number of the format. -/
theorem holds_div_two_pow {r : ℚ} (hr : OnGrid 24 0 r) (hword : |r| ≤ 2 ^ 31) (hq : q ≤ 149) :
    single.Holds (r / 2 ^ q) := by
  have hleast : single.minExponent = -149 := rfl
  constructor
  · rw [div_eq_mul_inv, ← zpow_natCast, ← zpow_neg]
    exact (hr.mul_two_zpow (-q)).of_le (by omega)
  · calc |r / 2 ^ q| ≤ |r| := by
          rw [abs_div, abs_of_pos (show (0 : ℚ) < 2 ^ q by positivity)]
          exact div_le_self (abs_nonneg r) (one_le_pow₀ one_le_two)
      _ ≤ 2 ^ (31 : ℤ) := by exact_mod_cast hword
      _ < 2 ^ (single.maxExponent + 1) := zpow_lt_zpow_right₀ one_lt_two (by decide)

/-- Scaling it down loses nothing more. -/
theorem toRat?_toFloat (hlib : lib.Lawful) {n : Int32} {r : ℚ} (hr : NearestOnGrid 24 0 n.toInt r)
    (hq : q ≤ 149) :
    (toFloat lib n q).toRat? = some (r / 2 ^ q) ∧ single.Holds (r / 2 ^ q) := by
  obtain ⟨hread, hword⟩ := toRat?_ofInt hr
  have hholds := holds_div_two_pow hr.onGrid hword hq
  have hinteger : single.Holds r := by
    simpa using holds_div_two_pow hr.onGrid hword (Nat.zero_le 149)
  have hexponent : (-exponent q).toInt = -q := by
    rw [toInt_neg_exponent]
    omega
  have hround := hlib.scale_roundsTo _ r (-exponent q) hread hinteger
  rw [hexponent, zpow_neg, zpow_natCast, ← div_eq_mul_inv] at hround
  exact ⟨hround.toRat?_eq hholds, hholds⟩

/-- The way back gives what the integer was read as, at every scale, from any datum that denotes the
    same number. -/
theorem toInt_ofFloat_of_nearest (hlib : lib.Lawful) {n : Int32} {r : ℤ}
    (hr : NearestOnGrid 24 0 n.toInt r) (hq : q ≤ 149) {v : Value}
    (hv : v.toRat? = (toFloat lib n q).toRat?) : (ofFloat lib v q).toInt = saturate r := by
  obtain ⟨hdenotes, hholds⟩ := toRat?_toFloat hlib hr hq
  rw [toInt_ofFloat hlib (hv.trans hdenotes) hholds, div_mul_cancel₀ _ (by positivity),
    nearestEven_intCast]

/-- A pattern keeps the number. -/
theorem toRat?_toBits32_toFloat (hlib : lib.Lawful) (n : Int32) (hq : q ≤ 149) :
    (Value.ofBits32 (toFloat lib n q).toBits32).toRat? = (toFloat lib n q).toRat? := by
  obtain ⟨r, hr⟩ := exists_nearestOnGrid n
  obtain ⟨hdenotes, hholds⟩ := toRat?_toFloat hlib hr hq
  rw [hdenotes, toRat?_ofBits32_toBits32 hdenotes hholds]

/-! ## From integers and back -/

/-- In a word, multiples of 128 are of 24 significant bits, so a nearest number is 64 away at most. -/
theorem abs_sub_le_of_nearestOnGrid {n : Int32} {r : ℤ} (hr : NearestOnGrid 24 0 n.toInt r) :
    |r - n.toInt| ≤ 64 := by
  have hlow := n.le_toInt
  have hhigh := n.toInt_lt
  have hmultiple : OnGrid 24 0 (((n.toInt + 64) / 128 : ℤ) * 2 ^ (7 : ℤ)) :=
    onGrid_of_le (by decide) (by rw [abs_le]; omega) (by decide)
  have hnear : |n.toInt - (n.toInt + 64) / 128 * 128| ≤ 64 := by
    rw [abs_le]
    omega
  have hnear' : |(n.toInt : ℚ) - ((n.toInt + 64) / 128 : ℤ) * 2 ^ (7 : ℤ)| ≤ 64 := by
    exact_mod_cast hnear
  have hdist := (hr.nearest _ hmultiple).trans hnear'
  rw [abs_sub_comm]
  exact_mod_cast hdist

/-- **From an integer to floating point and back.** With a lawful library, for every scale up to 149
    the way ends at the same integer: the one that is nearest to the first among those of 24
    significant bits, with ties to even, or the greatest one of the word, if that is beyond it. So
    integers of 24 bits come back as they are, and no other is off by more than 64. It makes no
    difference whether the datum is written as a pattern on the way. -/
theorem ofFloat_toFloat (hlib : lib.Lawful) (n : Int32) :
    ∃ r : ℤ, NearestOnGrid 24 0 n.toInt r ∧ ∀ q ≤ 149,
      (ofFloat lib (toFloat lib n q) q).toInt = min r (2 ^ 31 - 1) ∧
      (|n.toInt| ≤ 2 ^ 24 → ofFloat lib (toFloat lib n q) q = n) ∧
      (∀ p ≤ 149, ofFloat lib (toFloat lib n p) p = ofFloat lib (toFloat lib n q) q) ∧
      |(ofFloat lib (toFloat lib n q) q).toInt - n.toInt| ≤ 64 ∧
      ofFloat lib (Value.ofBits32 (toFloat lib n q).toBits32) q =
        ofFloat lib (toFloat lib n q) q := by
  obtain ⟨r, hr⟩ := exists_nearestOnGrid n
  have hlow := n.le_toInt
  have hhigh := n.toInt_lt
  have hnear := abs_le.1 (abs_sub_le_of_nearestOnGrid hr)
  have hword : -2 ^ 31 ≤ r := by
    have hend : |(r : ℚ)| ≤ 2 ^ 31 := (toRat?_ofInt hr).2
    have hend' : |r| ≤ 2 ^ 31 := by exact_mod_cast hend
    exact (abs_le.1 hend').1
  have hback : ∀ p ≤ 149, (ofFloat lib (toFloat lib n p) p).toInt = min r (2 ^ 31 - 1) := by
    intro p hp
    rw [toInt_ofFloat_of_nearest hlib hr hp rfl]
    unfold saturate
    omega
  refine ⟨r, hr, fun q hq => ⟨hback q hq, fun hshort => ?_, fun p hp => ?_, ?_, ?_⟩⟩
  · have hself := hr.eq_self (onGrid_intCast (by decide) hshort le_rfl)
    have hexact : r = n.toInt := by exact_mod_cast hself
    rw [← Int32.toInt_inj, hback q hq]
    omega
  · rw [← Int32.toInt_inj, hback p hp, hback q hq]
  · rw [hback q hq, abs_le]
    omega
  · rw [← Int32.toInt_inj,
      toInt_ofFloat_of_nearest hlib hr hq (toRat?_toBits32_toFloat hlib n hq),
      toInt_ofFloat_of_nearest hlib hr hq rfl]

/-- A tie, which goes up to an even significand, at the finest scale; the greatest word, which is read
    as a number that no word can hold; and the last integer that comes back for its size alone. -/
theorem ofFloat_toFloat_of_tie_and_end :
    let lib := FloatLibrary.exact
    lib.Lawful ∧ 149 ≤ 149 ∧
      (∃ r : ℤ, NearestOnGrid 24 0 (16777219 : Int32).toInt r ∧
        (ofFloat lib (toFloat lib 16777219 149) 149).toInt = min r (2 ^ 31 - 1) ∧ r = 16777220) ∧
      |(ofFloat lib (toFloat lib Int32.maxValue 149) 149).toInt - Int32.maxValue.toInt| ≤ 64 ∧
      ofFloat lib (toFloat lib Int32.maxValue 149) 149 = Int32.maxValue ∧
      |(-16777216 : Int32).toInt| ≤ 2 ^ 24 ∧
      ofFloat lib (toFloat lib (-16777216) 149) 149 = -16777216 ∧
      0 ≤ 149 ∧
      ofFloat lib (toFloat lib (-16777216) 0) 0 = ofFloat lib (toFloat lib (-16777216) 149) 149 := by
  intro lib
  have hlib : lib.Lawful := FloatLibrary.exact_lawful
  obtain ⟨r, hr, htie⟩ := ofFloat_toFloat hlib 16777219
  obtain ⟨_, -, hend⟩ := ofFloat_toFloat hlib Int32.maxValue
  obtain ⟨_, -, hlast⟩ := ofFloat_toFloat hlib (-16777216)
  obtain ⟨htie, -⟩ := htie 149 (by decide)
  have hvalue : (ofFloat lib (toFloat lib 16777219 149) 149).toInt = 16777220 := by decide
  exact ⟨hlib, by decide, ⟨r, hr, htie, by omega⟩, (hend 149 (by decide)).2.2.2.1, by decide,
    by decide, (hlast 149 (by decide)).2.1 (by decide), by decide,
    (hlast 149 (by decide)).2.2.1 0 (by decide)⟩

/-! ## From floating point and back -/

/-- A number that is rounded to a multiple of a step is off by one half of the step at most. -/
theorem abs_nearestEven_div_sub_le (x : ℚ) (q : Nat) :
    |nearestEven (x * 2 ^ q) / 2 ^ q - x| ≤ 1 / 2 ^ (q + 1) := by
  have hpos : (0 : ℚ) < 2 ^ q := by positivity
  have hscaled : |(nearestEven (x * 2 ^ q) : ℚ) / 2 ^ q - x| =
      |x * 2 ^ q - nearestEven (x * 2 ^ q)| / 2 ^ q := by
    rw [← abs_of_pos hpos, ← abs_div, abs_of_pos hpos, sub_div, mul_div_cancel_right₀ x hpos.ne',
      abs_sub_comm]
  calc |nearestEven (x * 2 ^ q) / 2 ^ q - x|
      = |x * 2 ^ q - nearestEven (x * 2 ^ q)| / 2 ^ q := hscaled
    _ ≤ 1 / 2 / 2 ^ q := div_le_div_of_nonneg_right (abs_sub_nearestEven_le _) hpos.le
    _ = 1 / 2 ^ (q + 1) := by rw [pow_succ', div_div]

/-- **From floating point to an integer and back.** With a lawful library, for every pattern of a
    number that fits a word at a scale up to 149, the datum that comes back denotes the multiple of
    `2 ^ (-q)` nearest to the number, with ties to the even one, and so does its pattern. So it is off
    by one half of such a step at most, it denotes the number itself if that is a multiple, and a second
    way there and back changes nothing, whether it starts from the datum or from its pattern. -/
theorem toFloat_ofFloat (hlib : lib.Lawful) {bits : UInt32} {x : ℚ}
    (hx : (Value.ofBits32 bits).toRat? = some x) {q : Nat} (hq : q ≤ 149)
    (hlow : -2 ^ 31 ≤ x * 2 ^ q) (hhigh : x * 2 ^ q < 2 ^ 31) :
    let back := toFloat lib (ofFloat lib (Value.ofBits32 bits) q) q
    ∃ y, back.toRat? = some y ∧ (Value.ofBits32 back.toBits32).toRat? = some y ∧
      y = nearestEven (x * 2 ^ q) / 2 ^ q ∧
      |y - x| ≤ 1 / 2 ^ (q + 1) ∧ ((∃ k : ℤ, x = k / 2 ^ q) → y = x) ∧
      toFloat lib (ofFloat lib back q) q = back ∧
      toFloat lib (ofFloat lib (Value.ofBits32 back.toBits32) q) q = back := by
  intro back
  have hholds : single.Holds x := single.holds_of_decode (by decide) hx
  have hgrid : OnGrid single.precision single.minExponent (x * 2 ^ q) := by
    rw [← zpow_natCast]
    exact (hholds.1.mul_two_zpow q).of_le (by omega)
  obtain ⟨hwordLow, hwordHigh⟩ := nearestEven_mem_word hgrid hlow hhigh
  have hinteger : (ofFloat lib (Value.ofBits32 bits) q).toInt = nearestEven (x * 2 ^ q) := by
    rw [toInt_ofFloat hlib hx hholds, saturate_of_mem hwordLow hwordHigh]
  have hnearest : NearestOnGrid 24 0 (ofFloat lib (Value.ofBits32 bits) q).toInt
      (nearestEven (x * 2 ^ q) : ℤ) := by
    rw [hinteger]
    exact (hgrid.onGrid_nearestEven single.precision_pos).nearestOnGrid_self
  obtain ⟨hdenotes, hback⟩ := toRat?_toFloat hlib hnearest hq
  have hagain : ∀ v : Value, v.toRat? = back.toRat? → toFloat lib (ofFloat lib v q) q = back := by
    intro v hv
    have hsame : ofFloat lib v q = ofFloat lib (Value.ofBits32 bits) q := by
      rw [← Int32.toInt_inj, toInt_ofFloat_of_nearest hlib hnearest hq hv, hinteger,
        saturate_of_mem hwordLow hwordHigh]
    rw [hsame]
  refine ⟨_, hdenotes, toRat?_ofBits32_toBits32 hdenotes hback, rfl,
    abs_nearestEven_div_sub_le x q, ?_, hagain back rfl,
    hagain _ (toRat?_toBits32_toFloat hlib _ hq)⟩
  rintro ⟨k, rfl⟩
  rw [div_mul_cancel₀ _ (by positivity), nearestEven_intCast]

/-- A tie between the two smallest positive multiples of a step, of which the even one is taken; and the
    smallest negative number, which is a multiple of the finest step. -/
theorem toFloat_ofFloat_of_subnormal :
    let lib := FloatLibrary.exact
    lib.Lawful ∧ (Value.ofBits32 3).toRat? = some (3 / 2 ^ 149) ∧ 148 ≤ 149 ∧
      -2 ^ 31 ≤ (3 / 2 ^ 149 : ℚ) * 2 ^ 148 ∧ (3 / 2 ^ 149 : ℚ) * 2 ^ 148 < 2 ^ 31 ∧
      (toFloat lib (ofFloat lib (Value.ofBits32 3) 148) 148).toRat? = some (2 / 2 ^ 148) ∧
      (Value.ofBits32 0x80000001).toRat? = some (-1 / 2 ^ 149) ∧ 149 ≤ 149 ∧
      (∃ k : ℤ, (-1 / 2 ^ 149 : ℚ) = k / 2 ^ 149) ∧
      (toFloat lib (ofFloat lib (Value.ofBits32 0x80000001) 149) 149).toRat? =
        some (-1 / 2 ^ 149) := by
  intro lib
  have hlib : lib.Lawful := FloatLibrary.exact_lawful
  have hthree : (Value.ofBits32 3).toRat? = some (3 / 2 ^ 149) := by
    have hdatum : Value.ofBits32 3 = .finite false 3 (-149) := by decide
    rw [hdatum, Value.toRat?]
    norm_num [signed]
  have hleast : (Value.ofBits32 0x80000001).toRat? = some (-1 / 2 ^ 149) := by
    have hdatum : Value.ofBits32 0x80000001 = .finite true 1 (-149) := by decide
    rw [hdatum, Value.toRat?]
    norm_num [signed]
  have hlow : -2 ^ 31 ≤ (3 / 2 ^ 149 : ℚ) * 2 ^ 148 := by norm_num
  have hhigh : (3 / 2 ^ 149 : ℚ) * 2 ^ 148 < 2 ^ 31 := by norm_num
  have htie : nearestEven ((3 / 2 ^ 149 : ℚ) * 2 ^ 148) = 2 := by
    rw [nearestEven_eq_iff]
    exact ⟨by norm_num, fun _ => by decide⟩
  have hmultiple : ∃ k : ℤ, (-1 / 2 ^ 149 : ℚ) = k / 2 ^ 149 := ⟨-1, by norm_num⟩
  obtain ⟨y, hdenotes, -, hnearest, -⟩ :=
    toFloat_ofFloat hlib hthree (q := 148) (by decide) hlow hhigh
  obtain ⟨z, hback, -, -, -, hself, -⟩ :=
    toFloat_ofFloat hlib hleast (q := 149) (by decide) (by norm_num) (by norm_num)
  rw [hnearest, htie, Int.cast_ofNat] at hdenotes
  rw [hself hmultiple] at hback
  exact ⟨hlib, hthree, by decide, hlow, hhigh, hdenotes, hleast, by decide, hmultiple, hback⟩

end SpeechFrame.Fixed
