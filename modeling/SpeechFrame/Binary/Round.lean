import SpeechFrame.Binary.Value

set_option autoImplicit false

/-! # Rounding to nearest even

Every inexact step of the float conversions goes to the nearest candidate and, between two equally
near ones, to the even one. `divNearestEven` says that for a quotient of naturals; everything else
in this file is that rule on some grid of powers of two.

`Format.round` rounds an exact number once to a format, and the arithmetic below it computes the
exact result first and then rounds it, which is the only rounding there is. Exponents may be
arbitrarily far out, so no power of two is formed unless it is known to be of use: a shift that
moves every bit out of sight is answered without it. -/

namespace SpeechFrame.Binary

-- The powers are those of the core library, whatever else is imported.
attribute [local instance (high)] instPowNat

/-! ## Quotients -/

/-- The integer nearest to `n / d`; of two equally near ones, the even one. -/
def divNearestEven (n d : Nat) : Nat :=
  let floor := n / d
  let rest := 2 * (n % d)
  if rest < d then floor
  else if d < rest then floor + 1
  else floor + floor % 2

/-- The integer nearest to `n / 2 ^ shift`, ties to even. A number with two bits less than the
    divisor is below one half. -/
def shiftNearestEven (n shift : Nat) : Nat :=
  if n.log2 + 1 < shift then 0 else divNearestEven n (2 ^ shift)

/-- The integer part of `significand · 2 ^ exponent`. -/
def floorNat (significand : Nat) (exponent : Int) : Nat :=
  if 0 ≤ exponent then significand <<< exponent.toNat
  else significand >>> (-exponent).toNat

/-! ## Rounding to a format -/

namespace Format

/-- The finite datum of a significand that the format can hold, unless its leading bit lies beyond
    the largest exponent, where the datum is infinite. -/
def bounded (f : Format) (negative : Bool) (significand : Nat) (exponent : Int) : Value :=
  if significand = 0 then .finite negative 0 0
  else if f.maxExponent < significand.log2 + exponent then .infinity negative
  else .finite negative significand exponent

/-- `±significand · 2 ^ exponent` rounded once to the format, ties to even. A result of which no
    bit is left is a zero that keeps the sign. -/
def round (f : Format) (negative : Bool) (significand : Nat) (exponent : Int) : Value :=
  let place := f.lastPlace significand exponent
  if place ≤ exponent then f.bounded negative significand exponent
  else f.bounded negative (shiftNearestEven significand (place - exponent).toNat) place

/-- An integer as a datum of the format. -/
def ofInt (f : Format) (n : Int) : Value := f.round (n < 0) n.natAbs 0

/-- The product of two data, rounded once. -/
def mul (f : Format) : Value → Value → Value
  | .finite n₁ s₁ e₁, .finite n₂ s₂ e₂ => f.round (n₁ ^^ n₂) (s₁ * s₂) (e₁ + e₂)
  | .infinity n₁, .infinity n₂ => .infinity (n₁ ^^ n₂)
  | .infinity n₁, .finite n₂ s₂ _ => if s₂ = 0 then .nan else .infinity (n₁ ^^ n₂)
  | .finite n₁ s₁ _, .infinity n₂ => if s₁ = 0 then .nan else .infinity (n₁ ^^ n₂)
  | .nan, _ => .nan
  | _, .nan => .nan

/-- The sum of two data, rounded once. Opposite numbers add up to the positive zero. -/
def add (f : Format) : Value → Value → Value
  | .finite n₁ s₁ e₁, .finite n₂ s₂ e₂ =>
    let e := min e₁ e₂
    let sum := signed n₁ (s₁ <<< (e₁ - e).toNat) + signed n₂ (s₂ <<< (e₂ - e).toNat)
    f.round (if sum = 0 then n₁ && n₂ else sum < 0) sum.natAbs e
  | .infinity n₁, .infinity n₂ => if n₁ = n₂ then .infinity n₁ else .nan
  | .infinity n₁, .finite _ _ _ => .infinity n₁
  | .finite _ _ _, .infinity n₂ => .infinity n₂
  | .nan, _ => .nan
  | _, .nan => .nan

end Format

/-! ## Integers of a datum -/

namespace Value

/-- The 32-bit integer part of a datum: the fraction is dropped, what is out of range goes to the
    nearer end of the range, and what is not a number to zero. -/
def truncateInt32 : Value → Int32
  | .nan => 0
  | .infinity negative => if negative then Int32.minValue else Int32.maxValue
  | .finite negative significand exponent =>
    Int32.ofIntClamp (signed negative (floorNat significand exponent))

end Value

end SpeechFrame.Binary
