set_option autoImplicit false

/-! # Binary floating-point data

Analysis hands its results over in the binary interchange formats of 32 and 64 bits. This file
reads such a pattern as the number it denotes and writes a number back as a pattern.

A `Value` keeps a finite number exactly, as a sign, a natural significand and a power of two, so
one type serves both formats and every conversion between them that loses nothing is the identity.
The same number has many such triples; nothing below depends on which one is at hand. A zero keeps
its sign, because scaling a negative number down until nothing is left has to show it. -/

namespace SpeechFrame.Binary

-- The powers are those of the core library, whatever else is imported.
attribute [local instance (high)] instPowNat

/-- A binary interchange format, given by the widths of the two fields that follow its sign. -/
structure Format where
  fractionBits : Nat
  exponentBits : Nat
  deriving DecidableEq, Repr

def single : Format := ⟨23, 8⟩

def double : Format := ⟨52, 11⟩

namespace Format

/-- Significant bits of a normal number: the fraction and the bit in front of it. -/
def precision (f : Format) : Nat := f.fractionBits + 1

/-- Exponent of the leading bit of the largest numbers. -/
def maxExponent (f : Format) : Int := 2 ^ (f.exponentBits - 1) - 1

/-- Exponent of the last bit of the smallest numbers: the finest grid of the format. -/
def minExponent (f : Format) : Int := 1 - f.maxExponent - f.fractionBits

/-- Biased exponent of the infinities and of what is not a number. -/
def specialExponent (f : Format) : Nat := 2 ^ f.exponentBits - 1

end Format

/-- A floating-point datum. A finite one is `±significand · 2 ^ exponent`. -/
inductive Value where
  | nan
  | infinity (negative : Bool)
  | finite (negative : Bool) (significand : Nat) (exponent : Int)
  deriving DecidableEq, Repr

/-- A magnitude with its sign. -/
def signed (negative : Bool) (n : Nat) : Int :=
  if negative then -(n : Int) else n

namespace Format

/-! ## Reading a pattern -/

def fractionField (f : Format) (bits : Nat) : Nat := bits % 2 ^ f.fractionBits

def exponentField (f : Format) (bits : Nat) : Nat :=
  bits / 2 ^ f.fractionBits % 2 ^ f.exponentBits

def signField (f : Format) (bits : Nat) : Bool := bits.testBit (f.fractionBits + f.exponentBits)

/-- The datum a pattern denotes. Without a biased exponent the fraction stands alone on the finest
    grid; with one, a bit goes in front of it and the grid moves. -/
def decode (f : Format) (bits : Nat) : Value :=
  let fraction := f.fractionField bits
  let exponent := f.exponentField bits
  let negative := f.signField bits
  if exponent = f.specialExponent then
    if fraction = 0 then .infinity negative else .nan
  else if exponent = 0 then
    .finite negative fraction f.minExponent
  else
    .finite negative (2 ^ f.fractionBits + fraction) (f.minExponent + (exponent - 1 : Nat))

/-! ## Writing a pattern -/

/-- Exponent of the last bit that the format keeps of `significand · 2 ^ exponent`. -/
def lastPlace (f : Format) (significand : Nat) (exponent : Int) : Int :=
  max (significand.log2 + 1 + exponent - f.precision) f.minExponent

/-- The pattern of a magnitude that the format represents exactly. On the grid of its last place
    the significand overlaps the exponent field in the bit that a normal number leaves out, and so
    adds the one by which biased exponents of normal numbers exceed the grid's distance. -/
def encodeMagnitude (f : Format) (significand : Nat) (exponent : Int) : Nat :=
  let place := f.lastPlace significand exponent
  let aligned :=
    if place ≤ exponent then significand <<< (exponent - place).toNat
    else significand >>> (place - exponent).toNat
  (place - f.minExponent).toNat * 2 ^ f.fractionBits + aligned

/-- A magnitude's pattern under its sign. -/
def withSign (f : Format) (negative : Bool) (magnitude : Nat) : Nat :=
  if negative then 2 ^ (f.fractionBits + f.exponentBits) + magnitude else magnitude

/-- The pattern of a datum that the format represents exactly. What is not a number gets the quiet
    pattern without a sign. -/
def encode (f : Format) : Value → Nat
  | .nan => f.specialExponent * 2 ^ f.fractionBits + 2 ^ (f.fractionBits - 1)
  | .infinity negative => f.withSign negative (f.specialExponent * 2 ^ f.fractionBits)
  | .finite negative significand exponent =>
    f.withSign negative (if significand = 0 then 0 else f.encodeMagnitude significand exponent)

end Format

/-! ## Words -/

def Value.ofBits32 (bits : UInt32) : Value := single.decode bits.toNat

def Value.ofBits64 (bits : UInt64) : Value := double.decode bits.toNat

def Value.toBits32 (v : Value) : UInt32 := UInt32.ofNat (single.encode v)

def Value.toBits64 (v : Value) : UInt64 := UInt64.ofNat (double.encode v)

end SpeechFrame.Binary
