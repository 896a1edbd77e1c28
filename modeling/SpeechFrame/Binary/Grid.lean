import Mathlib.Algebra.Order.Field.Power
import Mathlib.Tactic.FieldSimp
import Mathlib.Tactic.GCongr
import Mathlib.Tactic.LinearCombination
import Mathlib.Tactic.NormNum
import Mathlib.Tactic.Positivity
import SpeechFrame.Binary.NearestEven

set_option autoImplicit false

/-! # Numbers of bounded precision

The numbers that a binary format can hold, its largest exponent aside, are those with a bounded
count of significant bits and no bit below a last place: `OnGrid`. With a last place of zero they are
the integers of so many significant bits. Their spacing grows with their size, so the nearest one to a
given number is best said without any spacing: `NearestOnGrid` compares it with every other number of
the grid. For one number there is only one such, and `nearestOnGrid_of_place` computes it: once the
right place is known, it is a matter of rounding to an integer. -/

namespace SpeechFrame.Binary

/-- A number of at most `precision` significant bits with no bit below `2 ^ least`. -/
def OnGrid (precision : Nat) (least : ℤ) (x : ℚ) : Prop :=
  ∃ significand exponent : ℤ,
    |significand| < 2 ^ precision ∧ least ≤ exponent ∧ x = significand * 2 ^ exponent

/-- The number of the grid that is nearest to `x`. Of two equally near ones it is the one with an even
    significand: an even multiple of the distance between the two. -/
structure NearestOnGrid (precision : Nat) (least : ℤ) (x y : ℚ) : Prop where
  onGrid : OnGrid precision least y
  nearest : ∀ z, OnGrid precision least z → |x - y| ≤ |x - z|
  even : ∀ z, OnGrid precision least z → z ≠ y → |x - z| = |x - y| →
    ∃ k : ℤ, y = 2 * k * (z - y)

variable {precision : Nat} {least fine place : ℤ} {x y z : ℚ}

/-! ## Numbers of a grid -/

namespace OnGrid

theorem of_le (h : OnGrid precision least x) (hle : fine ≤ least) : OnGrid precision fine x := by
  obtain ⟨significand, exponent, hbits, hleast, heq⟩ := h
  exact ⟨significand, exponent, hbits, hle.trans hleast, heq⟩

theorem of_precision_le {wide : Nat} (h : OnGrid precision least x) (hle : precision ≤ wide) :
    OnGrid wide least x := by
  obtain ⟨significand, exponent, hbits, hleast, rfl⟩ := h
  exact ⟨significand, exponent, hbits.trans_le (pow_le_pow_right₀ one_le_two hle), hleast, rfl⟩

theorem mul_two_zpow (h : OnGrid precision least x) (n : ℤ) :
    OnGrid precision (least + n) (x * 2 ^ n) := by
  obtain ⟨significand, exponent, hbits, hleast, rfl⟩ := h
  refine ⟨significand, exponent + n, hbits, by omega, ?_⟩
  rw [zpow_add₀ two_ne_zero, mul_assoc]

/-- Numbers of a grid are no nearer to zero than its last place, unless they are zero. -/
theorem two_zpow_le_abs (h : OnGrid precision least x) (hne : x ≠ 0) : 2 ^ least ≤ |x| := by
  obtain ⟨significand, exponent, -, hleast, rfl⟩ := h
  have hpos : (0 : ℚ) < 2 ^ exponent := by positivity
  have hsignificand : significand ≠ 0 := by
    rintro rfl
    simp at hne
  have hone : (1 : ℚ) ≤ |(significand : ℚ)| := by
    exact_mod_cast Int.one_le_abs hsignificand
  rw [abs_mul, abs_of_pos hpos]
  calc (2 : ℚ) ^ least ≤ 2 ^ exponent := zpow_le_zpow_right₀ one_le_two hleast
    _ ≤ |(significand : ℚ)| * 2 ^ exponent := le_mul_of_one_le_left hpos.le hone

theorem neg (h : OnGrid precision least x) : OnGrid precision least (-x) := by
  obtain ⟨significand, exponent, hbits, hleast, rfl⟩ := h
  exact ⟨-significand, exponent, by rwa [abs_neg], hleast, by push_cast; ring⟩

/-- Numbers of a grid are whole multiples of its last place. -/
theorem exists_multiple (h : OnGrid precision least x) : ∃ n : ℤ, x = n * 2 ^ least := by
  obtain ⟨significand, exponent, -, hleast, rfl⟩ := h
  obtain ⟨k, rfl⟩ := Int.exists_add_of_le hleast
  refine ⟨significand * 2 ^ k, ?_⟩
  rw [zpow_add₀ two_ne_zero, zpow_natCast]
  push_cast
  ring

/-- A number of the grid has no bit below a given place, unless it is too small to have all its bits
    above it. -/
theorem coarse_or_lt (h : OnGrid precision least x) (place : ℤ) :
    OnGrid precision place x ∨ least < place ∧ |x| < 2 ^ (precision + place - 1) := by
  obtain ⟨significand, exponent, hbits, hleast, rfl⟩ := h
  rcases le_or_gt place exponent with hge | hlt
  · exact .inl ⟨significand, exponent, hbits, hge, rfl⟩
  · have hpos : (0 : ℚ) < 2 ^ exponent := by positivity
    have hbits' : |(significand : ℚ)| < 2 ^ precision := by exact_mod_cast hbits
    refine .inr ⟨by omega, ?_⟩
    rw [abs_mul, abs_of_pos hpos]
    calc |(significand : ℚ)| * 2 ^ exponent < 2 ^ precision * 2 ^ exponent := by gcongr
      _ = 2 ^ (precision + exponent) := by rw [zpow_add₀ two_ne_zero, zpow_natCast]
      _ ≤ 2 ^ (precision + place - 1) := zpow_le_zpow_right₀ one_le_two (by omega)

end OnGrid

/-- The significand may also be the power that needs one bit more, of which only the first is set. -/
theorem onGrid_of_le {significand exponent : ℤ} (hprecision : 1 ≤ precision)
    (hbits : |significand| ≤ 2 ^ precision) (hleast : least ≤ exponent) :
    OnGrid precision least (significand * 2 ^ exponent) := by
  rcases lt_or_eq_of_le hbits with hlt | heq
  · exact ⟨significand, exponent, hlt, hleast, rfl⟩
  · obtain ⟨rest, rfl⟩ := Nat.exists_eq_add_of_le' hprecision
    have hdouble : ∃ half : ℤ, |half| = 2 ^ rest ∧ significand = half * 2 := by
      rcases (abs_eq (by positivity)).1 heq with hpos | hneg
      · exact ⟨2 ^ rest, abs_of_nonneg (by positivity), by rw [hpos, pow_succ]⟩
      · refine ⟨-2 ^ rest, ?_, by rw [hneg, pow_succ, neg_mul]⟩
        rw [abs_neg, abs_of_nonneg (by positivity)]
    obtain ⟨half, habs, rfl⟩ := hdouble
    refine ⟨half, exponent + 1, ?_, by omega, ?_⟩
    · rw [habs]
      exact pow_lt_pow_right₀ one_lt_two (Nat.lt_succ_self rest)
    · rw [zpow_add_one₀ two_ne_zero]
      push_cast
      ring

/-! ## The nearest number of a grid -/

theorem OnGrid.nearestOnGrid_self (h : OnGrid precision least x) :
    NearestOnGrid precision least x x where
  onGrid := h
  nearest z _ := by
    rw [sub_self, abs_zero]
    exact abs_nonneg _
  even z _ hne htie := by
    rw [sub_self, abs_zero, abs_eq_zero, sub_eq_zero] at htie
    exact absurd htie.symm hne

namespace NearestOnGrid

theorem unique (hy : NearestOnGrid precision least x y) (hz : NearestOnGrid precision least x z) :
    y = z := by
  by_contra hne
  have htie : |x - y| = |x - z| := le_antisymm (hy.nearest z hz.onGrid) (hz.nearest y hy.onGrid)
  obtain ⟨k, hk⟩ := hy.even z hz.onGrid (Ne.symm hne) htie.symm
  obtain ⟨l, hl⟩ := hz.even y hy.onGrid hne htie
  -- Each is an even multiple of their distance, so the distance is an even multiple of itself.
  have hdist : (2 * (k + l) + 1 : ℚ) * (z - y) = 0 := by linear_combination hl - hk
  have hodd : (2 * (k + l) + 1 : ℚ) ≠ 0 := by
    have : 2 * (k + l) + 1 ≠ 0 := by omega
    exact_mod_cast this
  rcases mul_eq_zero.1 hdist with hzero | hzero
  · exact hodd hzero
  · exact hne (sub_eq_zero.1 hzero).symm

theorem eq_self (h : NearestOnGrid precision least x y) (hx : OnGrid precision least x) : y = x :=
  h.unique hx.nearestOnGrid_self

/-- Rounding to a grid keeps the order. -/
theorem mono {x' y' : ℚ} (h : NearestOnGrid precision least x y)
    (h' : NearestOnGrid precision least x' y') (hle : x ≤ x') : y ≤ y' := by
  by_contra! hlt
  have hx := sq_le_sq.2 (h.nearest y' h'.onGrid)
  have hx' := sq_le_sq.2 (h'.nearest y h.onGrid)
  -- The lower number is no lower than the middle of the two and the upper one no higher, so the two
  -- numbers are one.
  have hlow : y + y' ≤ 2 * x := by nlinarith
  have hhigh : 2 * x' ≤ y + y' := by nlinarith
  obtain rfl : x = x' := by linarith
  exact hlt.ne (h'.unique h)

/-- The nearest number does not pass a number of the grid, on its way from zero. -/
theorem abs_le_of_abs_le (h : NearestOnGrid precision least x y) (hz : OnGrid precision least z)
    (hx : |x| ≤ z) : |y| ≤ z := by
  obtain ⟨hlow, hhigh⟩ := abs_le.1 hx
  exact abs_le.2 ⟨hz.neg.nearestOnGrid_self.mono h hlow, h.mono hz.nearestOnGrid_self hhigh⟩

/-- Nor does it on its way to zero. -/
theorem le_abs_of_le_abs (h : NearestOnGrid precision least x y) (hz : OnGrid precision least z)
    (hx : z ≤ |x|) : z ≤ |y| := by
  rcases le_abs.1 hx with hpos | hneg
  · exact le_abs.2 (.inl (hz.nearestOnGrid_self.mono h hpos))
  · have hbelow := h.mono hz.neg.nearestOnGrid_self (le_neg.1 hneg)
    exact le_abs.2 (.inr (le_neg.1 hbelow))

/-- A coarser grid that has the nearest number has it as the nearest. -/
theorem of_le (h : NearestOnGrid precision fine x y) (hle : fine ≤ least)
    (hy : OnGrid precision least y) : NearestOnGrid precision least x y where
  onGrid := hy
  nearest z hz := h.nearest z (hz.of_le hle)
  even z hz := h.even z (hz.of_le hle)

end NearestOnGrid

/-! ## Rounding at a place -/

theorem abs_sub_mul_two_zpow (x : ℚ) (n place : ℤ) :
    |x - n * 2 ^ place| = |x / 2 ^ place - n| * 2 ^ place := by
  have hpos : (0 : ℚ) < 2 ^ place := by positivity
  rw [← abs_of_pos hpos, ← abs_mul, abs_of_pos hpos, sub_mul, div_mul_cancel₀ x hpos.ne']

/-- No multiple of a place is nearer than the one that rounding gives. -/
theorem abs_sub_nearestEven_mul_le (x : ℚ) (n place : ℤ) :
    |x - nearestEven (x / 2 ^ place) * 2 ^ place| ≤ |x - n * 2 ^ place| := by
  have hpos : (0 : ℚ) < 2 ^ place := by positivity
  rw [abs_sub_mul_two_zpow, abs_sub_mul_two_zpow]
  exact mul_le_mul_of_nonneg_right (abs_sub_nearestEven_le_abs_sub _ n) hpos.le

/-- A power of two that a number reaches is a multiple of every place below it. -/
theorem exists_multiple_abs_sub {k : Nat} (hx : 2 ^ (place + k) ≤ |x|) :
    ∃ n : ℤ, |x - n * 2 ^ place| = |x| - 2 ^ (place + k) := by
  have hpower : ((2 ^ k : ℤ) : ℚ) * 2 ^ place = 2 ^ (place + k) := by
    rw [zpow_add₀ two_ne_zero, zpow_natCast, mul_comm]
    push_cast
    rfl
  rcases le_total 0 x with hnonneg | hnonpos
  · rw [abs_of_nonneg hnonneg] at hx ⊢
    refine ⟨2 ^ k, ?_⟩
    rw [hpower, abs_of_nonneg (by linarith)]
  · rw [abs_of_nonpos hnonpos] at hx ⊢
    refine ⟨-2 ^ k, ?_⟩
    rw [Int.cast_neg, neg_mul, hpower, abs_of_nonpos (by linarith)]
    ring

theorem abs_nearestEven_le {n : ℤ} (h : |x| ≤ n) : |nearestEven x| ≤ n := by
  obtain ⟨hlow, hhigh⟩ := abs_le.1 h
  have hlow' := nearestEven_monotone hlow
  have hhigh' := nearestEven_monotone hhigh
  rw [nearestEven_neg, nearestEven_intCast] at hlow'
  rw [nearestEven_intCast] at hhigh'
  exact abs_le.2 ⟨hlow', hhigh'⟩

/-- Where no bit of `x` is wasted, a number of the grid is a multiple of the place, or it is on the far
    side of a power of two that is one. -/
theorem OnGrid.multiple_or_farther (hz : OnGrid precision least z) (hprecision : 1 ≤ precision)
    (hlow : place = least ∨ 2 ^ (precision + place - 1) ≤ |x|) :
    (∃ n : ℤ, z = n * 2 ^ place) ∨
      |x - nearestEven (x / 2 ^ place) * 2 ^ place| < |x - z| := by
  rcases hz.coarse_or_lt place with hcoarse | ⟨hfine, hsmall⟩
  · exact .inl hcoarse.exists_multiple
  · have hlarge := hlow.resolve_left hfine.ne'
    have hlead : (precision + place - 1 : ℤ) = place + (precision - 1 : Nat) := by omega
    rw [hlead] at hsmall hlarge
    obtain ⟨n, hn⟩ := exists_multiple_abs_sub hlarge
    refine .inr ?_
    calc |x - nearestEven (x / 2 ^ place) * 2 ^ place|
        ≤ |x - n * 2 ^ place| := abs_sub_nearestEven_mul_le x n place
      _ = |x| - 2 ^ (place + (precision - 1 : Nat)) := hn
      _ < |x| - |z| := by linarith
      _ ≤ |x - z| := abs_sub_abs_le_abs_sub x z

/-- A multiple that is as near as the one that rounding gives makes that one an even multiple of their
    distance. -/
theorem exists_even_multiple {n : ℤ} (hne : n ≠ nearestEven (x / 2 ^ place))
    (htie : |x - n * 2 ^ place| = |x - nearestEven (x / 2 ^ place) * 2 ^ place|) :
    ∃ k : ℤ, (nearestEven (x / 2 ^ place) : ℚ) * 2 ^ place =
      2 * k * (n * 2 ^ place - nearestEven (x / 2 ^ place) * 2 ^ place) := by
  have hpos : (0 : ℚ) < 2 ^ place := by positivity
  rw [abs_sub_mul_two_zpow, abs_sub_mul_two_zpow, mul_left_inj' hpos.ne'] at htie
  obtain ⟨⟨half, hhalf⟩, hnext⟩ := even_nearestEven_of_ne hne htie
  have hsquare : (n - nearestEven (x / 2 ^ place)) ^ 2 = 1 := by rw [← sq_abs, hnext, one_pow]
  have hsquare' : ((n : ℚ) - nearestEven (x / 2 ^ place)) ^ 2 = 1 := by exact_mod_cast hsquare
  have hhalf' : (nearestEven (x / 2 ^ place) : ℚ) = half + half := by exact_mod_cast hhalf
  refine ⟨half * (n - nearestEven (x / 2 ^ place)), ?_⟩
  push_cast
  linear_combination (2 ^ place : ℚ) * hhalf' - 2 * half * 2 ^ place * hsquare'

/-- To round to a grid is to round at a place, if all bits that the grid keeps of the number are at
    that place and none is wasted. -/
theorem nearestOnGrid_of_place (hprecision : 1 ≤ precision) (hleast : least ≤ place)
    (hhigh : |x| < 2 ^ (precision + place))
    (hlow : place = least ∨ 2 ^ (precision + place - 1) ≤ |x|) :
    NearestOnGrid precision least x (nearestEven (x / 2 ^ place) * 2 ^ place) where
  onGrid := by
    have hpos : (0 : ℚ) < 2 ^ place := by positivity
    rw [zpow_add₀ two_ne_zero, zpow_natCast] at hhigh
    refine onGrid_of_le hprecision (abs_nearestEven_le ?_) hleast
    rw [abs_div, abs_of_pos hpos, div_le_iff₀ hpos]
    push_cast
    exact hhigh.le
  nearest z hz := by
    rcases hz.multiple_or_farther hprecision hlow with ⟨n, rfl⟩ | hfarther
    · exact abs_sub_nearestEven_mul_le x n place
    · exact hfarther.le
  even z hz hne htie := by
    rcases hz.multiple_or_farther hprecision hlow with ⟨n, rfl⟩ | hfarther
    · exact exists_even_multiple (fun heq => hne (by rw [heq])) htie
    · exact absurd htie hfarther.ne'

/-! ## Integers on a grid -/

theorem onGrid_intCast {n : ℤ} (hprecision : 1 ≤ precision) (hn : |n| ≤ 2 ^ precision)
    (hleast : least ≤ 0) : OnGrid precision least n := by
  simpa using onGrid_of_le hprecision hn hleast

/-- The least integer that needs all bits of a precision. -/
theorem two_zpow_lead (hprecision : 1 ≤ precision) :
    (2 : ℚ) ^ (precision + 0 - 1 : ℤ) = ((2 ^ (precision - 1) : ℤ) : ℚ) := by
  push_cast
  rw [← zpow_natCast]
  congr 1
  omega

/-- The number nearest to an integer is an integer, if there is no bit below the last place that an
    integer could use. -/
theorem NearestOnGrid.onGrid_zero {n : ℤ} (h : NearestOnGrid precision least n y)
    (hprecision : 1 ≤ precision) (hleast : least ≤ 0) : OnGrid precision 0 y := by
  rcases h.onGrid.coarse_or_lt 0 with hinteger | ⟨-, hsmall⟩
  · exact hinteger
  · rw [two_zpow_lead hprecision] at hsmall
    -- So small a number is nearest only to an integer that is on the grid itself.
    have hbits : |n| ≤ 2 ^ precision := by
      by_contra! hlarge
      have hpower : OnGrid precision least (2 ^ (precision - 1) : ℤ) := by
        refine onGrid_intCast hprecision ?_ hleast
        rw [abs_of_nonneg (by positivity)]
        exact pow_le_pow_right₀ one_le_two (Nat.sub_le precision 1)
      have hreach : (2 ^ (precision - 1) : ℤ) ≤ |n| :=
        (pow_le_pow_right₀ one_le_two (Nat.sub_le precision 1)).trans hlarge.le
      exact absurd (h.le_abs_of_le_abs hpower (by exact_mod_cast hreach)) hsmall.not_ge
    rw [h.eq_self (onGrid_intCast hprecision hbits hleast)]
    exact onGrid_intCast hprecision hbits le_rfl

/-- A number of the grid is an integer already, or it is rounded to an integer with a bit to spare. -/
theorem OnGrid.nearestEven_eq_or_le (h : OnGrid precision least x) (hprecision : 1 ≤ precision) :
    (nearestEven x : ℚ) = x ∧ OnGrid precision 0 x ∨ |nearestEven x| ≤ 2 ^ (precision - 1) := by
  rcases h.coarse_or_lt 0 with hinteger | ⟨-, hsmall⟩
  · obtain ⟨n, hn⟩ := hinteger.exists_multiple
    rw [zpow_zero, mul_one] at hn
    exact .inl ⟨by rw [hn, nearestEven_intCast], hinteger⟩
  · rw [two_zpow_lead hprecision] at hsmall
    exact .inr (abs_nearestEven_le hsmall.le)

theorem OnGrid.onGrid_nearestEven (h : OnGrid precision least x) (hprecision : 1 ≤ precision) :
    OnGrid precision 0 (nearestEven x) := by
  rcases h.nearestEven_eq_or_le hprecision with ⟨heq, hinteger⟩ | hsmall
  · rwa [heq]
  · exact onGrid_intCast hprecision
      (hsmall.trans (pow_le_pow_right₀ one_le_two (Nat.sub_le precision 1))) le_rfl

end SpeechFrame.Binary
