import SpeechFrame.Extent
import SpeechFrame.LowFreqPair

set_option autoImplicit false

/-! # Frame records

Analysis describes each frame by a record of predictors, gains and shaping filters, and the
quantiser codes the frame by that description. `ControlRecord` is the record of the encoder.
`SynthesisRecord` is the record of a decoder, a type of its own with the fields that a decoder needs
and can rebuild; `ControlRecord.toSynthesisRecord` fills one from the encoder's.

Every field has its largest extent at all times, and a fresh record is zero throughout. -/

namespace SpeechFrame

/-- What a decoder needs to synthesise a frame. -/
structure SynthesisRecord where
  /-- Pitch lag of each subframe, in samples. -/
  pitchLags : Vector Int32 maxSubframes := .replicate _ 0
  gains : Vector Int32 maxSubframes := .replicate _ 0
  /-- Short-term predictor interpolated from the previous frame's. -/
  interpolatedPredictor : Vector Int16 maxPredictorOrder := .replicate _ 0
  /-- Short-term predictor of the frame itself. -/
  framePredictor : Vector Int16 maxPredictorOrder := .replicate _ 0
  /-- Long-term predictors of all subframes, bank by bank. -/
  ltpTaps : Vector Int16 ltpBankSize := .replicate _ 0
  ltpScale : Int32 := 0
  deriving DecidableEq, Repr

/-- What analysis finds out about a frame and the quantiser reads. -/
structure ControlRecord where
  gains : Vector Int32 maxSubframes := .replicate _ 0
  /-- Short-term predictor interpolated from the previous frame's. -/
  interpolatedPredictor : Vector Int16 maxPredictorOrder := .replicate _ 0
  /-- Short-term predictor of the frame itself. -/
  framePredictor : Vector Int16 maxPredictorOrder := .replicate _ 0
  /-- Long-term predictors of all subframes, bank by bank. -/
  ltpTaps : Vector Int16 ltpBankSize := .replicate _ 0
  ltpScale : Int32 := 0
  /-- Pitch lag of each subframe, in samples. -/
  pitchLags : Vector Int32 maxSubframes := .replicate _ 0
  /-- First noise-shaping filters of all subframes, bank by bank. -/
  firstShaping : Vector Int16 shapingBankSize := .replicate _ 0
  /-- Second noise-shaping filters of all subframes, bank by bank. -/
  secondShaping : Vector Int16 shapingBankSize := .replicate _ 0
  lowFreq : Vector LowFreqPair maxSubframes := .replicate _ {}
  /-- Gain of each subframe ahead of noise shaping. -/
  preGains : Vector Int32 maxSubframes := .replicate _ 0
  harmonicBoosts : Vector Int32 maxSubframes := .replicate _ 0
  tilts : Vector Int32 maxSubframes := .replicate _ 0
  harmonicShapeGains : Vector Int32 maxSubframes := .replicate _ 0
  /-- Trade-off between rate and distortion. -/
  lambda : Int32 := 0
  inputQuality : Int32 := 0
  /-- Quality aimed at in coding. -/
  codingQuality : Int32 := 0
  sparseness : Int32 := 0
  predictionGain : Int32 := 0
  ltpCodingGain : Int32 := 0
  /-- Residual energy of each subframe, at a scale of its own. -/
  residualEnergies : Vector Int32 maxSubframes := .replicate _ 0
  /-- Scale of each residual energy. -/
  residualScales : Vector Int32 maxSubframes := .replicate _ 0
  /-- Gain of each subframe as it was before quantisation. -/
  unquantizedGains : Vector Int32 maxSubframes := .replicate _ 0
  /-- Gain index of the channel as it was before the gains of this frame were quantised. -/
  savedGainIndex : Int8 := 0
  deriving DecidableEq, Repr

namespace SynthesisRecord

/-- The record with every entry zero. -/
def zero : SynthesisRecord := {}

instance : Inhabited SynthesisRecord := ⟨zero⟩

/-- Set every entry to zero, whatever it was. -/
def clear (r : SynthesisRecord) : SynthesisRecord :=
  { r with
    pitchLags := .replicate _ 0
    gains := .replicate _ 0
    interpolatedPredictor := .replicate _ 0
    framePredictor := .replicate _ 0
    ltpTaps := .replicate _ 0
    ltpScale := 0 }

/-- Clearing leaves nothing of what a record held. -/
theorem clear_eq_zero (r : SynthesisRecord) : r.clear = zero := rfl

def isZero (r : SynthesisRecord) : Bool := r = zero

end SynthesisRecord

namespace ControlRecord

/-- The record with every entry zero. -/
def zero : ControlRecord := {}

instance : Inhabited ControlRecord := ⟨zero⟩

/-- Set every entry to zero, in whatever state a frame has left the record. -/
def clear (r : ControlRecord) : ControlRecord :=
  { r with
    gains := .replicate _ 0
    interpolatedPredictor := .replicate _ 0
    framePredictor := .replicate _ 0
    ltpTaps := .replicate _ 0
    ltpScale := 0
    pitchLags := .replicate _ 0
    firstShaping := .replicate _ 0
    secondShaping := .replicate _ 0
    lowFreq := .replicate _ {}
    preGains := .replicate _ 0
    harmonicBoosts := .replicate _ 0
    tilts := .replicate _ 0
    harmonicShapeGains := .replicate _ 0
    lambda := 0
    inputQuality := 0
    codingQuality := 0
    sparseness := 0
    predictionGain := 0
    ltpCodingGain := 0
    residualEnergies := .replicate _ 0
    residualScales := .replicate _ 0
    unquantizedGains := .replicate _ 0
    savedGainIndex := 0 }

/-- Clearing leaves nothing of what a record held. -/
theorem clear_eq_zero (r : ControlRecord) : r.clear = zero := rfl

def isZero (r : ControlRecord) : Bool := r = zero

/-- What a decoder rebuilds of the frame. -/
def toSynthesisRecord (r : ControlRecord) : SynthesisRecord where
  pitchLags := r.pitchLags
  gains := r.gains
  interpolatedPredictor := r.interpolatedPredictor
  framePredictor := r.framePredictor
  ltpTaps := r.ltpTaps
  ltpScale := r.ltpScale

/-- What a decoder rebuilds of a cleared record is a cleared record. -/
theorem toSynthesisRecord_clear (r : ControlRecord) :
    r.clear.toSynthesisRecord = r.toSynthesisRecord.clear := rfl

end ControlRecord

end SpeechFrame
