import SpeechFrame.Record.Basic

set_option autoImplicit false

/-! # Fields of the record

Analysis fills a record field by field. This file names the fields by what they hold, words for
each subframe, single words, or filter taps, and gives each kind one pair of operations, so that
what is true of writing any field can be said once. The remaining two fields, the low-frequency
pairs and the gain index, are alone in their kinds. -/

namespace SpeechFrame

/-- A field with one word for each subframe. -/
inductive SubframeField where
  | pitchLags
  | gains
  | preGains
  | harmonicBoosts
  | tilts
  | harmonicShapeGains
  | residualEnergies
  | residualScales
  | unquantizedGains
  deriving DecidableEq, Repr

/-- A field with one word for the whole frame. -/
inductive FrameField where
  | ltpScale
  | lambda
  | inputQuality
  | codingQuality
  | sparseness
  | predictionGain
  | ltpCodingGain
  deriving DecidableEq, Repr

/-- A field of filter taps. -/
inductive TapField where
  | interpolatedPredictor
  | framePredictor
  | ltpTaps
  | firstShaping
  | secondShaping
  deriving DecidableEq, Repr

abbrev TapField.extent : TapField → Nat
  | .interpolatedPredictor => maxPredictorOrder
  | .framePredictor => maxPredictorOrder
  | .ltpTaps => ltpBankSize
  | .firstShaping => shapingBankSize
  | .secondShaping => shapingBankSize

namespace ControlRecord

/-! ## Words for each subframe -/

def subframeWords (r : ControlRecord) : SubframeField → Vector Int32 maxSubframes
  | .pitchLags => r.pitchLags
  | .gains => r.gains
  | .preGains => r.preGains
  | .harmonicBoosts => r.harmonicBoosts
  | .tilts => r.tilts
  | .harmonicShapeGains => r.harmonicShapeGains
  | .residualEnergies => r.residualEnergies
  | .residualScales => r.residualScales
  | .unquantizedGains => r.unquantizedGains

def setSubframeWords (r : ControlRecord) (f : SubframeField) (v : Vector Int32 maxSubframes) :
    ControlRecord :=
  match f with
  | .pitchLags => { r with pitchLags := v }
  | .gains => { r with gains := v }
  | .preGains => { r with preGains := v }
  | .harmonicBoosts => { r with harmonicBoosts := v }
  | .tilts => { r with tilts := v }
  | .harmonicShapeGains => { r with harmonicShapeGains := v }
  | .residualEnergies => { r with residualEnergies := v }
  | .residualScales => { r with residualScales := v }
  | .unquantizedGains => { r with unquantizedGains := v }

/-- A write to one field shows in that field only. -/
theorem subframeWords_setSubframeWords (r : ControlRecord) (f g : SubframeField)
    (v : Vector Int32 maxSubframes) :
    (r.setSubframeWords f v).subframeWords g = if g = f then v else r.subframeWords g := by
  cases f <;> cases g <;> rfl

theorem setSubframeWords_self (r : ControlRecord) (f : SubframeField) :
    r.setSubframeWords f (r.subframeWords f) = r := by
  cases f <;> rfl

theorem setSubframeWords_setSubframeWords (r : ControlRecord) (f : SubframeField)
    (v w : Vector Int32 maxSubframes) :
    (r.setSubframeWords f v).setSubframeWords f w = r.setSubframeWords f w := by
  cases f <;> rfl

/-! ## Words for the frame -/

def frameWord (r : ControlRecord) : FrameField → Int32
  | .ltpScale => r.ltpScale
  | .lambda => r.lambda
  | .inputQuality => r.inputQuality
  | .codingQuality => r.codingQuality
  | .sparseness => r.sparseness
  | .predictionGain => r.predictionGain
  | .ltpCodingGain => r.ltpCodingGain

def setFrameWord (r : ControlRecord) (f : FrameField) (v : Int32) : ControlRecord :=
  match f with
  | .ltpScale => { r with ltpScale := v }
  | .lambda => { r with lambda := v }
  | .inputQuality => { r with inputQuality := v }
  | .codingQuality => { r with codingQuality := v }
  | .sparseness => { r with sparseness := v }
  | .predictionGain => { r with predictionGain := v }
  | .ltpCodingGain => { r with ltpCodingGain := v }

/-- A write to one field shows in that field only. -/
theorem frameWord_setFrameWord (r : ControlRecord) (f g : FrameField) (v : Int32) :
    (r.setFrameWord f v).frameWord g = if g = f then v else r.frameWord g := by
  cases f <;> cases g <;> rfl

/-! ## Taps -/

def taps (r : ControlRecord) : (f : TapField) → Vector Int16 f.extent
  | .interpolatedPredictor => r.interpolatedPredictor
  | .framePredictor => r.framePredictor
  | .ltpTaps => r.ltpTaps
  | .firstShaping => r.firstShaping
  | .secondShaping => r.secondShaping

def setTaps (r : ControlRecord) : (f : TapField) → Vector Int16 f.extent → ControlRecord
  | .interpolatedPredictor, v => { r with interpolatedPredictor := v }
  | .framePredictor, v => { r with framePredictor := v }
  | .ltpTaps, v => { r with ltpTaps := v }
  | .firstShaping, v => { r with firstShaping := v }
  | .secondShaping, v => { r with secondShaping := v }

theorem taps_setTaps_self (r : ControlRecord) (f : TapField) (v : Vector Int16 f.extent) :
    (r.setTaps f v).taps f = v := by
  cases f <;> rfl

theorem taps_setTaps_of_ne (r : ControlRecord) {f g : TapField} (v : Vector Int16 f.extent)
    (h : g ≠ f) : (r.setTaps f v).taps g = r.taps g := by
  cases f <;> cases g <;> simp_all [taps, setTaps]

theorem setTaps_self (r : ControlRecord) (f : TapField) : r.setTaps f (r.taps f) = r := by
  cases f <;> rfl

theorem setTaps_setTaps (r : ControlRecord) (f : TapField) (v w : Vector Int16 f.extent) :
    (r.setTaps f v).setTaps f w = r.setTaps f w := by
  cases f <;> rfl

/-! ## Kinds of fields apart

A write to a field of one kind shows in no field of another. -/

@[simp] theorem taps_setSubframeWords (r : ControlRecord) (f : SubframeField)
    (v : Vector Int32 maxSubframes) (g : TapField) : (r.setSubframeWords f v).taps g = r.taps g := by
  cases f <;> cases g <;> rfl

@[simp] theorem lowFreq_setSubframeWords (r : ControlRecord) (f : SubframeField)
    (v : Vector Int32 maxSubframes) : (r.setSubframeWords f v).lowFreq = r.lowFreq := by
  cases f <;> rfl

@[simp] theorem savedGainIndex_setSubframeWords (r : ControlRecord) (f : SubframeField)
    (v : Vector Int32 maxSubframes) :
    (r.setSubframeWords f v).savedGainIndex = r.savedGainIndex := by
  cases f <;> rfl

@[simp] theorem subframeWords_setFrameWord (r : ControlRecord) (f : FrameField) (v : Int32)
    (g : SubframeField) : (r.setFrameWord f v).subframeWords g = r.subframeWords g := by
  cases f <;> cases g <;> rfl

@[simp] theorem taps_setFrameWord (r : ControlRecord) (f : FrameField) (v : Int32) (g : TapField) :
    (r.setFrameWord f v).taps g = r.taps g := by
  cases f <;> cases g <;> rfl

@[simp] theorem lowFreq_setFrameWord (r : ControlRecord) (f : FrameField) (v : Int32) :
    (r.setFrameWord f v).lowFreq = r.lowFreq := by
  cases f <;> rfl

@[simp] theorem savedGainIndex_setFrameWord (r : ControlRecord) (f : FrameField) (v : Int32) :
    (r.setFrameWord f v).savedGainIndex = r.savedGainIndex := by
  cases f <;> rfl

@[simp] theorem subframeWords_setTaps (r : ControlRecord) (f : TapField) (v : Vector Int16 f.extent)
    (g : SubframeField) : (r.setTaps f v).subframeWords g = r.subframeWords g := by
  cases f <;> cases g <;> rfl

@[simp] theorem lowFreq_setTaps (r : ControlRecord) (f : TapField) (v : Vector Int16 f.extent) :
    (r.setTaps f v).lowFreq = r.lowFreq := by
  cases f <;> rfl

@[simp] theorem savedGainIndex_setTaps (r : ControlRecord) (f : TapField)
    (v : Vector Int16 f.extent) : (r.setTaps f v).savedGainIndex = r.savedGainIndex := by
  cases f <;> rfl

end ControlRecord

end SpeechFrame
