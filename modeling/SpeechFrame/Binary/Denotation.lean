import SpeechFrame.Binary.Grid
import SpeechFrame.Binary.Round

set_option autoImplicit false

/-! # The numbers that data denote

A finite datum denotes a rational number, which `Value.toRat?` gives. It is what all statements about
floating point are about: two data that differ as triples denote the same number, and a pattern is
read as the number of its datum.

`Format.RoundsTo` says what it is for a datum to be a number rounded once to a format. It mentions
neither shifts nor significands, and it leaves nothing open but how a number is written down as a
triple, and the sign of a zero. -/

namespace SpeechFrame.Binary

/-- The number that a finite datum denotes. -/
def Value.toRat? : Value → Option ℚ
  | .finite negative significand exponent => some (signed negative significand * 2 ^ exponent)
  | _ => none

theorem Value.toRat?_eq_some_iff {v : Value} {x : ℚ} :
    v.toRat? = some x ↔ ∃ negative significand exponent,
      v = .finite negative significand exponent ∧ signed negative significand * 2 ^ exponent = x := by
  cases v <;> simp [toRat?]

namespace Format

/-- A number that the format can hold. -/
def Holds (f : Format) (x : ℚ) : Prop :=
  OnGrid f.precision f.minExponent x ∧ |x| < 2 ^ (f.maxExponent + 1)

/-- The datum `v` is the number `x` rounded once to the format. The format's precision decides which
    number comes next to `x`, with ties to even; if that one's leading bit lies beyond the largest
    exponent, the datum is the infinity of its sign. -/
def RoundsTo (f : Format) (x : ℚ) (v : Value) : Prop :=
  ∃ y, NearestOnGrid f.precision f.minExponent x y ∧
    (|y| < 2 ^ (f.maxExponent + 1) → v.toRat? = some y) ∧
    (2 ^ (f.maxExponent + 1) ≤ |y| → v = .infinity (y < 0))

variable {f : Format} {x : ℚ} {v : Value}

theorem RoundsTo.toRat?_eq (h : f.RoundsTo x v) (hx : f.Holds x) : v.toRat? = some x := by
  obtain ⟨y, hnearest, hfinite, -⟩ := h
  obtain rfl := hnearest.eq_self hx.1
  exact hfinite hx.2

end Format

/-! ## Signs -/

@[simp] theorem abs_signed (negative : Bool) (n : Nat) : |(signed negative n : ℚ)| = n := by
  cases negative <;> simp [signed]

theorem abs_signed_mul_two_zpow (negative : Bool) (n : Nat) (e : ℤ) :
    |(signed negative n : ℚ) * 2 ^ e| = n * 2 ^ e := by
  rw [abs_mul, abs_signed, abs_of_pos (by positivity)]

theorem signed_mul_two_zpow_lt_zero_iff (negative : Bool) {n : Nat} (hn : n ≠ 0) (e : ℤ) :
    (signed negative n : ℚ) * 2 ^ e < 0 ↔ negative = true := by
  have hpos : (0 : ℚ) < n * 2 ^ e := by positivity
  cases negative with
  | false => simpa [signed] using hpos.le
  | true => simpa [signed] using hpos

theorem signed_mul_congr (negative : Bool) {m n : Nat} {c d : ℚ} (h : (m : ℚ) * c = n * d) :
    (signed negative m : ℚ) * c = signed negative n * d := by
  cases negative <;> simp [signed, h]

/-- Rounding a magnitude is rounding the number. -/
theorem nearestEven_signed_mul (negative : Bool) {n m : Nat} {c : ℚ}
    (h : nearestEven (n * c) = m) : nearestEven (signed negative n * c) = signed negative m := by
  cases negative <;> simp [signed, h]

theorem signed_xor_mul (m n : Bool) (a b : Nat) :
    signed (m ^^ n) (a * b) = signed m a * signed n b := by
  cases m <;> cases n <;> simp [signed]

/-- A magnitude may be brought to a lower exponent. -/
theorem signed_shiftLeft_mul (negative : Bool) (n : Nat) {e least : ℤ} (h : least ≤ e) :
    (signed negative (n <<< (e - least).toNat) : ℚ) * 2 ^ least = signed negative n * 2 ^ e := by
  obtain ⟨shift, rfl⟩ := Int.exists_add_of_le h
  have hcount : (least + shift - least).toNat = shift := by omega
  apply signed_mul_congr
  rw [hcount, Nat.shiftLeft_eq, zpow_add₀ two_ne_zero, zpow_natCast]
  push_cast
  ring

/-- An integer is its magnitude under its sign. -/
theorem signed_natAbs (n : ℤ) : signed (n < 0) n.natAbs = n := by
  unfold signed
  split
  · next hneg =>
    have := of_decide_eq_true hneg
    omega
  · next hnonneg =>
    have := of_decide_eq_false (Bool.eq_false_iff.2 hnonneg)
    omega

/-- Every number of a grid is the number of a datum. -/
theorem OnGrid.exists_toRat? {precision : Nat} {least : ℤ} {x : ℚ} (h : OnGrid precision least x) :
    ∃ v : Value, v.toRat? = some x := by
  obtain ⟨significand, exponent, -, -, rfl⟩ := h
  exact ⟨.finite (significand < 0) significand.natAbs exponent, by rw [Value.toRat?, signed_natAbs]⟩

/-! ## Patterns -/

theorem Format.two_pow_precision (f : Format) :
    2 ^ f.precision = 2 ^ f.fractionBits + 2 ^ f.fractionBits := by
  rw [Format.precision, pow_succ, mul_two]

/-- What a pattern denotes is on the grid of its format. -/
theorem onGrid_of_decode {f : Format} {bits : Nat} {x : ℚ} (h : (f.decode bits).toRat? = some x) :
    OnGrid f.precision f.minExponent x := by
  have hfraction : f.fractionField bits < 2 ^ f.fractionBits := Nat.mod_lt _ (by positivity)
  have hprecision := f.two_pow_precision
  have hdatum : ∀ significand exponent, significand < 2 ^ f.precision → f.minExponent ≤ exponent →
      OnGrid f.precision f.minExponent
        (signed (f.signField bits) significand * 2 ^ exponent : ℚ) := by
    intro significand exponent hbits hleast
    refine ⟨signed (f.signField bits) significand, exponent, ?_, hleast, rfl⟩
    have hbits' : |(signed (f.signField bits) significand : ℚ)| < 2 ^ f.precision := by
      rw [abs_signed]
      exact_mod_cast hbits
    exact_mod_cast hbits'
  rw [Format.decode] at h
  split at h
  · split at h <;> cases h
  · split at h
    · cases h
      exact hdatum _ _ (by omega) le_rfl
    · cases h
      exact hdatum _ _ (by omega) (by omega)

/-- What a pattern denotes does not go beyond the largest exponent of its format. -/
theorem Format.abs_lt_of_decode (f : Format) (hexponent : 2 ≤ f.exponentBits) {bits : Nat} {x : ℚ}
    (h : (f.decode bits).toRat? = some x) : |x| < 2 ^ (f.maxExponent + 1) := by
  have hfraction : f.fractionField bits < 2 ^ f.fractionBits := Nat.mod_lt _ (by positivity)
  have hfield : f.exponentField bits < 2 ^ f.exponentBits := Nat.mod_lt _ (by positivity)
  have hprecision := f.two_pow_precision
  obtain ⟨rest, hrest⟩ := Nat.exists_eq_add_of_le' hexponent
  have hmax : f.maxExponent = (2 ^ (rest + 1) : ℕ) - 1 := by
    rw [maxExponent, hrest]
    norm_cast
  have hspecial : f.specialExponent = 2 ^ (rest + 1) * 2 - 1 := by
    rw [specialExponent, hrest, ← pow_succ]
  rw [hrest, pow_succ] at hfield
  have hlarge : 2 ≤ 2 ^ (rest + 1) := Nat.le_self_pow (Nat.succ_ne_zero rest) 2
  have hleast : f.minExponent = 1 - f.maxExponent - f.fractionBits := rfl
  have hdatum : ∀ (significand : Nat) (exponent : ℤ), significand < 2 ^ f.precision →
      exponent + f.fractionBits ≤ f.maxExponent →
      |(signed (f.signField bits) significand : ℚ) * 2 ^ exponent| < 2 ^ (f.maxExponent + 1) := by
    intro significand exponent hbits hhigh
    have hbits' : (significand : ℚ) < 2 ^ f.precision := by exact_mod_cast hbits
    rw [abs_signed_mul_two_zpow]
    calc (significand : ℚ) * 2 ^ exponent < 2 ^ f.precision * 2 ^ exponent := by gcongr
      _ = 2 ^ (f.precision + exponent) := by rw [zpow_add₀ two_ne_zero, zpow_natCast]
      _ ≤ 2 ^ (f.maxExponent + 1) :=
        zpow_le_zpow_right₀ one_le_two (by unfold precision; omega)
  rw [decode] at h
  split at h
  · split at h <;> cases h
  · split at h
    · cases h
      exact hdatum _ _ (by omega) (by omega)
    · cases h
      exact hdatum _ _ (by omega) (by omega)

/-- What a pattern denotes, its format holds. -/
theorem Format.holds_of_decode (f : Format) (hexponent : 2 ≤ f.exponentBits) {bits : Nat} {x : ℚ}
    (h : (f.decode bits).toRat? = some x) : f.Holds x :=
  ⟨onGrid_of_decode h, f.abs_lt_of_decode hexponent h⟩

end SpeechFrame.Binary
