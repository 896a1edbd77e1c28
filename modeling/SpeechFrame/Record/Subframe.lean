import SpeechFrame.Fault
import SpeechFrame.Fixed
import SpeechFrame.Record.Basic
import SpeechFrame.Window

set_option autoImplicit false

/-! # The record of one subframe

Analysis and quantisation work one subframe at a time. This file says which entries of a record
belong to subframe `k`, and reads and writes them. A subframe that the record does not have, or an
order beyond its extent, is a fault; the subframe is looked at first. Every check comes before the
first write, so a fault leaves no half-written record. -/

namespace SpeechFrame

inductive ShapingFilter where
  | first
  | second
  deriving DecidableEq, Repr

namespace ControlRecord

/-! ## Short-term prediction -/

/-- Where the predictor of subframe `k` stands among the two. The upper bit of `k` is its half of a
    full frame, and without interpolation the second place serves both halves. -/
def predictorRow (k : Nat) (interpolated : Bool) : Nat :=
  (k >>> 1) ||| (if interpolated then 0 else 1)

/-- The bits of a subframe that there is lead to one of the two predictors. -/
theorem predictorRow_eq {k : Nat} (hk : k < maxSubframes) (interpolated : Bool) :
    predictorRow k interpolated = if interpolated ∧ k < maxSubframes / 2 then 0 else 1 := by
  match k, hk with
  | 0, _ | 1, _ | 2, _ | 3, _ => cases interpolated <;> rfl

theorem predictorRow_lt {k : Nat} (hk : k < maxSubframes) (interpolated : Bool) :
    predictorRow k interpolated < 2 := by
  rw [predictorRow_eq hk]
  split <;> decide

/-- The short-term predictors of a frame. -/
def predictors (r : ControlRecord) : Vector (Vector Int16 maxPredictorOrder) 2 :=
  #v[r.interpolatedPredictor, r.framePredictor]

/-- The first `order` taps of the short-term predictor for subframe `k`. -/
def predictor (r : ControlRecord) (k order : Nat) (interpolated : Bool) :
    Except Fault (Vector Int16 order) :=
  if hk : k < maxSubframes then
    if h : order ≤ maxPredictorOrder then
      .ok ((Window.leading h).read
        (r.predictors.get ⟨predictorRow k interpolated, predictorRow_lt hk interpolated⟩))
    else .error .predictionOrder
  else .error .subframeIndex

/-! ## Long-term prediction -/

/-- Where the long-term predictor of subframe `k` lies. -/
def ltpWindow (k : Nat) : Except Fault (Window ltpBankSize ltpOrder) :=
  if h : k < maxSubframes then .ok (Window.ofBank h (Nat.le_refl _))
  else .error .subframeIndex

def ltp (r : ControlRecord) (k : Nat) : Except Fault (Vector Int16 ltpOrder) := do
  let w ← ltpWindow k
  return w.read r.ltpTaps

def setLtp (r : ControlRecord) (k : Nat) (taps : Vector Int16 ltpOrder) :
    Except Fault ControlRecord := do
  let w ← ltpWindow k
  return { r with ltpTaps := w.write r.ltpTaps taps }

/-! ## Noise shaping -/

/-- Where the first `order` taps of a noise-shaping filter of subframe `k` lie. -/
def shapingWindow (k order : Nat) : Except Fault (Window shapingBankSize order) :=
  if hk : k < maxSubframes then
    if h : order ≤ maxShapingOrder then .ok (Window.ofBank hk h)
    else .error .shapingOrder
  else .error .subframeIndex

def shapingTaps (r : ControlRecord) : ShapingFilter → Vector Int16 shapingBankSize
  | .first => r.firstShaping
  | .second => r.secondShaping

def setShapingTaps (r : ControlRecord) (filter : ShapingFilter)
    (taps : Vector Int16 shapingBankSize) : ControlRecord :=
  match filter with
  | .first => { r with firstShaping := taps }
  | .second => { r with secondShaping := taps }

/-- The first `order` taps of a noise-shaping filter for subframe `k`. -/
def shaping (r : ControlRecord) (filter : ShapingFilter) (k order : Nat) :
    Except Fault (Vector Int16 order) := do
  let w ← shapingWindow k order
  return w.read (r.shapingTaps filter)

/-- Write the first `order` taps of a noise-shaping filter for subframe `k`. -/
def setShaping (r : ControlRecord) (filter : ShapingFilter) (k : Nat) {order : Nat}
    (taps : Vector Int16 order) : Except Fault ControlRecord := do
  let w ← shapingWindow k order
  return r.setShapingTaps filter (w.write (r.shapingTaps filter) taps)

/-! ## Taps from analysis -/

section

variable (lib : Binary.FloatLibrary)

/-- Bring the taps of a long-term predictor from floating point into the record. There have to be
    as many numbers as taps. -/
def quantizeLtp (r : ControlRecord) (k : Nat) (xs : Array Binary.Value) (q : Nat) :
    Except Fault ControlRecord := do
  let w ← ltpWindow k
  let taps ← Fixed.ofFloats16 lib (w.read r.ltpTaps) xs q
  return { r with ltpTaps := w.write r.ltpTaps taps }

/-- Bring the taps of a noise-shaping filter from floating point into the record. There have to be
    as many numbers as taps. -/
def quantizeShaping (r : ControlRecord) (filter : ShapingFilter) (k order : Nat)
    (xs : Array Binary.Value) (q : Nat) : Except Fault ControlRecord := do
  let w ← shapingWindow k order
  let taps ← Fixed.ofFloats16 lib (w.read (r.shapingTaps filter)) xs q
  return r.setShapingTaps filter (w.write (r.shapingTaps filter) taps)

end

/-! ## Words for the quantiser -/

/-- The low-frequency shaping words of the first `subframes` subframes, in place of zeros. -/
def lowFreqWords (r : ControlRecord) (subframes : Nat) :
    Except Fault (Vector Int32 maxSubframes) :=
  if subframes ≤ maxSubframes then
    .ok (fillFrom LowFreqPair.toWord (.replicate _ 0) 0 (r.lowFreq.toList.take subframes))
  else .error .subframeCount

theorem length_take_lowFreq (r : ControlRecord) {subframes : Nat} (h : subframes ≤ maxSubframes) :
    (r.lowFreq.toList.take subframes).length = subframes :=
  List.length_take_of_le (by rw [Vector.length_toList]; exact h)

/-! ## The gain snapshot -/

/-- Keep the gains of the first `subframes` subframes and the channel's gain index as they are
    before quantisation, so that a discarded coding attempt can be undone. -/
def snapshotGains (r : ControlRecord) (subframes : Nat) (gainIndex : Int8) :
    Except Fault ControlRecord :=
  if h : subframes ≤ maxSubframes then
    let w := Window.leading h
    .ok { r with
      unquantizedGains := w.write r.unquantizedGains (w.read r.gains)
      savedGainIndex := gainIndex }
  else .error .subframeCount

/-! ## Calls that keep to the record

What comes of each operation for a subframe that the record has and an order that it can hold. -/

section

variable {k order subframes : Nat} (r : ControlRecord)

theorem predictor_eq_ok (hk : k < maxSubframes) (h : order ≤ maxPredictorOrder)
    (interpolated : Bool) :
    r.predictor k order interpolated = .ok ((Window.leading h).read
      (if interpolated ∧ k < maxSubframes / 2 then r.interpolatedPredictor
        else r.framePredictor)) := by
  simp only [predictor, dif_pos hk, dif_pos h, predictorRow_eq hk]
  split <;> rfl

theorem ltp_eq_ok (hk : k < maxSubframes) :
    r.ltp k = .ok ((Window.ofBank hk (Nat.le_refl ltpOrder)).read r.ltpTaps) := by
  rw [ltp, ltpWindow, dif_pos hk]
  rfl

theorem setLtp_eq_ok (hk : k < maxSubframes) (taps : Vector Int16 ltpOrder) :
    r.setLtp k taps = .ok { r with
      ltpTaps := (Window.ofBank hk (Nat.le_refl ltpOrder)).write r.ltpTaps taps } := by
  rw [setLtp, ltpWindow, dif_pos hk]
  rfl

theorem shaping_eq_ok (filter : ShapingFilter) (hk : k < maxSubframes)
    (h : order ≤ maxShapingOrder) :
    r.shaping filter k order = .ok ((Window.ofBank hk h).read (r.shapingTaps filter)) := by
  rw [shaping, shapingWindow, dif_pos hk, dif_pos h]
  rfl

theorem setShaping_eq_ok (filter : ShapingFilter) (hk : k < maxSubframes)
    (h : order ≤ maxShapingOrder) (taps : Vector Int16 order) :
    r.setShaping filter k taps = .ok (r.setShapingTaps filter
      ((Window.ofBank hk h).write (r.shapingTaps filter) taps)) := by
  rw [setShaping, shapingWindow, dif_pos hk, dif_pos h]
  rfl

theorem lowFreqWords_eq_ok (h : subframes ≤ maxSubframes) :
    r.lowFreqWords subframes =
      .ok (Vector.ofFn fun k => if k < subframes then r.lowFreq[k].toWord else 0) := by
  rw [lowFreqWords, if_pos h, fillFrom_eq_overwriteFrom]
  congr 1
  ext k hk
  rw [getElem_overwriteFrom, Vector.getElem_ofFn]
  simp only [List.length_map, r.length_take_lowFreq h, Nat.zero_add]
  by_cases hlive : k < subframes
  · rw [dif_pos ⟨Nat.zero_le k, hlive⟩, if_pos hlive]
    simp
  · rw [dif_neg (fun hcovered => hlive hcovered.2), if_neg hlive, Vector.getElem_replicate]

theorem snapshotGains_eq_ok (h : subframes ≤ maxSubframes) (gainIndex : Int8) :
    r.snapshotGains subframes gainIndex = .ok { r with
      unquantizedGains := (Window.leading h).write r.unquantizedGains
        ((Window.leading h).read r.gains)
      savedGainIndex := gainIndex } :=
  dif_pos h

end

end ControlRecord

end SpeechFrame
