set_option autoImplicit false

/-! # Low-frequency shaping pairs

Each subframe has one feedback and one feed-forward coefficient for the low-frequency shaping
filter. The quantiser reads both from one 32-bit word, the feedback coefficient from its upper and
the feed-forward coefficient from its lower half; `toWord` and `ofWord` move between the two forms
and lose nothing. `timesUpper` and `timesLower` are the products by which the quantiser reads a
word. -/

namespace SpeechFrame

/-- The two coefficients of the low-frequency shaping filter, each in 16 bits. -/
structure LowFreqPair where
  /-- The feedback coefficient: the upper half of the packed word. -/
  feedback : Int16 := 0
  /-- The feed-forward coefficient: the lower half of the packed word. -/
  feedForward : Int16 := 0
  deriving DecidableEq, Repr, Inhabited

namespace LowFreqPair

/-- The pair of two wider intermediates, each taken to the nearer end of the 16-bit range when it
    lies outside. -/
def saturating (feedback feedForward : Int32) : LowFreqPair where
  feedback := Int16.ofIntClamp feedback.toInt
  feedForward := Int16.ofIntClamp feedForward.toInt

/-- The word that holds both coefficients. The lower half is masked, so that a negative
    feed-forward coefficient leaves the upper half alone. -/
def toWord (p : LowFreqPair) : Int32 :=
  (p.feedback.toInt32 <<< 16) ||| (p.feedForward.toInt32 &&& 0xFFFF)

def ofWord (word : Int32) : LowFreqPair where
  feedback := (word >>> 16).toInt16
  feedForward := word.toInt16

/-! ## Products with half of a word -/

/-- A product in 64 bits that drops its 16 lowest bits. -/
def scaledProduct (a : Int32) (half : Int64) : Int32 :=
  ((a.toInt64 * half) >>> 16).toInt32

/-- A number scaled by the upper half of a word. -/
def timesUpper (a word : Int32) : Int32 :=
  scaledProduct a (word >>> 16).toInt64

/-- A number scaled by the lower half of a word. -/
def timesLower (a word : Int32) : Int32 :=
  scaledProduct a word.toInt16.toInt64

end LowFreqPair

end SpeechFrame
