import SpeechFrame.EncodeError
import SpeechFrame.Extent
import SpeechFrame.Fault

set_option autoImplicit false

/-! # Frame layouts

The frame records are held at their largest extents; a layout says how much of them one frame
uses. A layout is only ever built from extents that the records can hold, so its bounds are part
of the type, and whoever has a layout may index a record by it. -/

namespace SpeechFrame

-- The powers are those of the core library, whatever else is imported.
attribute [local instance (high)] instPowNat

/-- The live part of the frame records. -/
structure Layout where
  subframes : Nat
  predictorOrder : Nat
  /-- Taps of each noise-shaping filter, which run two at a time. -/
  shapingOrder : Nat
  subframeSamples : Nat
  subframes_valid : subframes = maxSubframes ∨ subframes = maxSubframes / 2
  predictorOrder_valid : predictorOrder = minPredictorOrder ∨ predictorOrder = maxPredictorOrder
  shapingOrder_valid : 0 < shapingOrder ∧ shapingOrder ≤ maxShapingOrder ∧ shapingOrder % 2 = 0
  subframeSamples_pos : 0 < subframeSamples
  deriving DecidableEq, Repr

namespace Layout

/-- The layout of four extents, if the records can hold them. A wrong number of subframes is the
    fault of the packet size; anything else is an internal inconsistency. -/
def ofExtents (subframes predictorOrder shapingOrder subframeSamples : Nat) :
    Except EncodeError Layout :=
  if hn : subframes = maxSubframes ∨ subframes = maxSubframes / 2 then
    if h : (predictorOrder = minPredictorOrder ∨ predictorOrder = maxPredictorOrder) ∧
        (0 < shapingOrder ∧ shapingOrder ≤ maxShapingOrder ∧ shapingOrder % 2 = 0) ∧
        0 < subframeSamples then
      .ok { subframes, predictorOrder, shapingOrder, subframeSamples
            subframes_valid := hn
            predictorOrder_valid := h.1
            shapingOrder_valid := h.2.1
            subframeSamples_pos := h.2.2 }
    else .error .internal
  else .error .unsupportedPacketSize

/-- The layout of a full frame at the highest rate and complexity. -/
def full : Layout where
  subframes := maxSubframes
  predictorOrder := maxPredictorOrder
  shapingOrder := maxShapingOrder
  subframeSamples := subframeMs * maxRateKHz
  subframes_valid := by decide
  predictorOrder_valid := by decide
  shapingOrder_valid := by decide
  subframeSamples_pos := by decide

instance : Inhabited Layout := ⟨full⟩

/-- Samples of a frame. The number has to fit a word of 64 bits. -/
def frameSamples (l : Layout) : Except Fault Nat :=
  if l.subframeSamples * l.subframes < 2 ^ (64 : Nat) then .ok (l.subframeSamples * l.subframes)
  else .error .frameSamples

theorem ofExtents_eq_ok {subframes predictorOrder shapingOrder subframeSamples : Nat}
    (hn : subframes = maxSubframes ∨ subframes = maxSubframes / 2)
    (hp : predictorOrder = minPredictorOrder ∨ predictorOrder = maxPredictorOrder)
    (hs : 0 < shapingOrder ∧ shapingOrder ≤ maxShapingOrder ∧ shapingOrder % 2 = 0)
    (hl : 0 < subframeSamples) :
    ofExtents subframes predictorOrder shapingOrder subframeSamples =
      .ok ⟨subframes, predictorOrder, shapingOrder, subframeSamples, hn, hp, hs, hl⟩ := by
  rw [ofExtents, dif_pos hn, dif_pos ⟨hp, hs, hl⟩]

/-- Every layout is the one that is built from its own extents, and from no others. -/
theorem ofExtents_eq_ok_iff {subframes predictorOrder shapingOrder samples : Nat} {l : Layout} :
    ofExtents subframes predictorOrder shapingOrder samples = .ok l ↔
      l.subframes = subframes ∧ l.predictorOrder = predictorOrder ∧
        l.shapingOrder = shapingOrder ∧ l.subframeSamples = samples := by
  constructor
  · intro h
    unfold ofExtents at h
    split at h
    · split at h
      · cases h
        exact ⟨rfl, rfl, rfl, rfl⟩
      · cases h
    · cases h
  · rintro ⟨rfl, rfl, rfl, rfl⟩
    exact ofExtents_eq_ok l.subframes_valid l.predictorOrder_valid l.shapingOrder_valid
      l.subframeSamples_pos

theorem subframes_eq (l : Layout) : l.subframes = 4 ∨ l.subframes = 2 :=
  l.subframes_valid

theorem subframes_le (l : Layout) : l.subframes ≤ maxSubframes := by
  have := l.subframes_valid
  simp only [maxSubframes] at *
  omega

theorem predictorOrder_le (l : Layout) : l.predictorOrder ≤ maxPredictorOrder := by
  have := l.predictorOrder_valid
  simp only [minPredictorOrder, maxPredictorOrder] at *
  omega

theorem shapingOrder_le (l : Layout) : l.shapingOrder ≤ maxShapingOrder :=
  l.shapingOrder_valid.2.1

end Layout

end SpeechFrame
