import SpeechFrame.Binary.Round

set_option autoImplicit false

/-! # The mathematical library

Two steps of the conversions are calls of a mathematical library that the conversions come without:
scaling by a power of two, and rounding to an integer. Whatever is said of the conversions is said of
any such library, a `FloatLibrary`, as far as its two functions do what their descriptions promise.

`FloatLibrary.exact` is one that does. It keeps numbers exactly and rounds the result once. -/

namespace SpeechFrame.Binary

/-- The functions of the library that the conversions call, both of them on data of 32 bits. -/
structure FloatLibrary where
  /-- A datum times a power of two. -/
  scale : Value → Int32 → Value
  /-- The integer nearest to a datum, as a datum. -/
  nearest : Value → Value

namespace FloatLibrary

/-- The datum times `2 ^ n`, rounded once to the format. -/
def exactScale (v : Value) (n : Int32) : Value :=
  match v with
  | .finite negative significand exponent => single.round negative significand (exponent + n.toInt)
  | special => special

/-- The integer nearest to a datum, ties to even. A datum without a fraction is one already. -/
def exactNearest : Value → Value
  | .finite negative significand exponent =>
    if 0 ≤ exponent then .finite negative significand exponent
    else .finite negative (shiftNearestEven significand (-exponent).toNat) 0
  | special => special

/-- The library that keeps numbers exactly until it rounds the result. -/
def exact : FloatLibrary where
  scale := exactScale
  nearest := exactNearest

end FloatLibrary

end SpeechFrame.Binary
