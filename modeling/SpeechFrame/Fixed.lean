import SpeechFrame.Binary.FloatLibrary
import SpeechFrame.Slice

set_option autoImplicit false

/-! # Fixed-point numbers

An integer `n` at scale `q` stands for `n / 2 ^ q`. This file moves numbers between floating point
and such integers, and between two scales.

Analysis results go to the nearest integer with ties to even, narrowed integers to the nearest with
ties upward; constants are raised by one half and cut off toward zero. Whatever does not fit its
word goes to the nearer end of the range. Any scale is accepted, however large, because the float
steps see it as a signed 32-bit exponent, clamped at the top; only a constant needs a scale at
which a 64-bit word can hold the number one.

Analysis results are scaled and rounded by a `FloatLibrary`. Products, sums and the cut toward zero
are arithmetic of the machine. -/

namespace SpeechFrame.Fixed

open Binary

-- The powers are those of the core library, whatever else is imported.
attribute [local instance (high)] instPowNat

/-! ## From floating point -/

/-- A scale as the exponent of a scaling step. -/
def exponent (q : Nat) : Int32 :=
  if q < 2 ^ (31 : Nat) then Int32.ofNat q else Int32.maxValue

section

variable (lib : FloatLibrary)

/-- The integer nearest to a number, in 32 bits. -/
def nearestInt32 (x : Value) : Int32 := (lib.nearest x).truncateInt32

/-- A number at scale `q` in 32 bits. -/
def ofFloat (x : Value) (q : Nat) : Int32 :=
  nearestInt32 lib (lib.scale x (exponent q))

/-- A number at scale `q` in 16 bits. -/
def ofFloat16 (x : Value) (q : Nat) : Int16 :=
  Int16.ofIntClamp (ofFloat lib x q).toInt

/-- Fill taps with as many numbers at scale `q`. -/
def ofFloats16 {taps : Nat} (out : Vector Int16 taps) (xs : Array Value) (q : Nat) :
    Except Fault (Vector Int16 taps) :=
  if xs.size = taps then .ok (fillFrom (ofFloat16 lib · q) out 0 xs.toList)
  else .error .lengthMismatch

/-- Of what the taps were before they are filled, nothing is left. -/
theorem ofFloats16_of_size {taps : Nat} (out : Vector Int16 taps) {xs : Array Value}
    (h : xs.size = taps) (q : Nat) :
    ∃ filled, ofFloats16 lib out xs q = .ok filled ∧
      filled.toArray = xs.map fun x => ofFloat16 lib x q := by
  have hlength : xs.toList.length = taps := h
  have hnothing : out.toList.drop xs.toList.length = [] :=
    List.drop_eq_nil_of_le (Nat.le_of_eq (out.length_toList.trans hlength.symm))
  refine ⟨_, if_pos h, Array.toList_inj.1 ?_⟩
  rw [← Vector.toList, toList_fillFrom _ _ (Nat.le_of_eq hlength), hnothing, List.append_nil,
    Array.toList_map]

end

/-! ## Constants -/

/-- The number one at scale `q` in a signed word of 64 bits. At the top scale the word's sign bit
    is all there is, so that one comes out negative. -/
def wideOne (q : Nat) : Int64 := 1 <<< Int64.ofNat q

/-- A constant at scale `q`: scaled, raised by one half, and cut off toward zero. Each of the two
    float steps rounds once. A scale needs to fit the word that holds the number one. -/
def ofConstant (x : Value) (q : Nat) : Except Fault Int32 :=
  if q < 64 then
    let scaled := double.mul x (double.ofInt (wideOne q).toInt)
    .ok (double.add scaled (.finite false 1 (-1))).truncateInt32
  else
    .error .constantScale

/-! ## To floating point -/

/-- The real number of an integer at scale `q`: the integer is rounded to the format, and then
    scaled. -/
def toFloat (lib : FloatLibrary) (n : Int32) (q : Nat) : Value :=
  lib.scale (single.ofInt n.toInt) (-exponent q)

/-! ## Between scales -/

/-- The end of the 32-bit range on the side of an integer; zero is on neither side. -/
def rangeEnd (n : Int32) : Int32 :=
  if n = 0 then 0 else if 0 < n then Int32.maxValue else Int32.minValue

/-- An integer times `2 ^ shift`, in 64 bits. -/
def widened (n : Int32) (shift : Nat) : Int64 :=
  n.toInt64 <<< Int64.ofNat shift

/-- An integer over `2 ^ shift`, nearest with ties upward, in 64 bits: one bit more than wanted is
    kept, one is added to it, and it is dropped. The shift is positive. -/
def narrowed (n : Int32) (shift : Nat) : Int64 :=
  ((n.toInt64 >>> Int64.ofNat (shift - 1)) + 1) >>> 1

/-- An integer at scale `source` moved to scale `target`. Widening stops at the ends of the range;
    narrowing takes the nearest integer, ties upward. A shift that no word can make is replaced by
    one with the same answer. -/
def rescale (n : Int32) (source target : Nat) : Int32 :=
  if source = target then n
  else if source < target then
    if 32 ≤ target - source then rangeEnd n
    else Int32.ofIntClamp (widened n (target - source)).toInt
  else
    Int32.ofIntClamp (narrowed n (min (source - target) 63)).toInt

end SpeechFrame.Fixed
