set_option autoImplicit false

/-! # Faults

A fault is a call that breaks the rules of the library: an index or an order outside the extent of
a record, or a number outside the machine word it must fit. A fault ends the call at once and is
not an answer about the audio; refusals of that kind are `SpeechFrame.EncodeError`. -/

namespace SpeechFrame

/-- What a call got wrong. -/
inductive Fault where
  | subframeIndex
  | predictionOrder
  | shapingOrder
  | subframeCount
  /-- Values for some taps, of which there are not as many as taps. -/
  | lengthMismatch
  /-- A constant asked for at a scale that no 64-bit word can hold. -/
  | constantScale
  /-- A frame whose number of samples no 64-bit word can hold. -/
  | frameSamples
  /-- A frame counter that has run through every 64-bit value. -/
  | frameCount
  /-- A run of entries up to `stop`, where there are only `extent` of them. -/
  | outOfExtent (stop extent : Nat)
  deriving DecidableEq, Repr

def Fault.message : Fault → String
  | .subframeIndex => "subframe index out of range"
  | .predictionOrder => "prediction order exceeds record extent"
  | .shapingOrder => "shaping order exceeds record extent"
  | .subframeCount => "subframe count out of range"
  | .lengthMismatch =>
    "assertion `left == right` failed: output and input slices must have matching lengths"
  | .constantScale => "attempt to shift left with overflow"
  | .frameSamples => "attempt to multiply with overflow"
  | .frameCount => "attempt to add with overflow"
  | .outOfExtent stop extent =>
    s!"range end index {stop} out of range for slice of length {extent}"

/-- Two calls in a row have a result only if each of them has. -/
theorem Fault.exists_of_bind_eq_ok {α β : Type} {x : Except Fault α} {f : α → Except Fault β}
    {b : β} (h : x >>= f = .ok b) : ∃ a, x = .ok a ∧ f a = .ok b := by
  cases x with
  | error fault => cases h
  | ok a => exact ⟨a, rfl, h⟩

end SpeechFrame
