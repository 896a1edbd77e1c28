import SpeechFrame.Layout

set_option autoImplicit false

/-! # Encoder configurations

A configuration is what a user asks for: channels, sampling rate, packet size and complexity. Any
numbers may be asked for; `validate` accepts those that an encoder supports, and `layout` derives
from an accepted configuration how its frames lie in the frame records. The layout is checked once
more when it is built, which never refuses a configuration that is supported. -/

namespace SpeechFrame

/-- The parameters that fix the shape of every frame. -/
structure Config where
  channels : Nat := 1
  rateKHz : Nat := 16
  packetMs : Nat := 20
  /-- How much effort to spend, from nothing to ten. -/
  complexity : Nat := 10
  deriving DecidableEq, Repr, Inhabited

namespace Config

/-! ## Validation -/

def supportedRates : List Nat := [8, 12, 16]

def supportedPackets : List Nat := [10, 20, 40, 60]

def maxComplexity : Nat := 10

/-- Whether an encoder supports the configuration. Of several reasons against it the first one in
    the order rate, packet size, complexity, channels is given. -/
def validate (c : Config) : Except EncodeError Unit :=
  if c.rateKHz ∉ supportedRates then .error .unsupportedRate
  else if c.packetMs ∉ supportedPackets then .error .unsupportedPacketSize
  else if maxComplexity < c.complexity then .error .invalidComplexity
  else if c.channels < 1 ∨ maxChannels < c.channels then .error .invalidChannelCount
  else .ok ()

theorem validate_eq_ok_iff (c : Config) :
    c.validate = .ok () ↔ c.rateKHz ∈ supportedRates ∧ c.packetMs ∈ supportedPackets ∧
      c.complexity ≤ maxComplexity ∧ 1 ≤ c.channels ∧ c.channels ≤ maxChannels := by
  unfold validate
  split
  · next hrate => exact ⟨nofun, fun h => absurd h.1 hrate⟩
  · next hrate =>
    split
    · next hpacket => exact ⟨nofun, fun h => absurd h.2.1 hpacket⟩
    · next hpacket =>
      split
      · next hcomplexity => exact ⟨nofun, fun h => absurd h.2.2.1 (Nat.not_le_of_gt hcomplexity)⟩
      · next hcomplexity =>
        split
        · next hchannels => exact ⟨nofun, fun h => by omega⟩
        · next hchannels =>
          have hrate := Decidable.not_not.1 hrate
          have hpacket := Decidable.not_not.1 hpacket
          exact ⟨fun _ => ⟨hrate, hpacket, by omega, by omega, by omega⟩, fun _ => rfl⟩

theorem channels_le {c : Config} (h : c.channels = 1 ∨ c.channels = 2) :
    c.channels ≤ maxChannels := by
  simp only [maxChannels]
  omega

theorem channels_eq_of_validate {c : Config} (h : c.validate = .ok ()) :
    c.channels = 1 ∨ c.channels = 2 := by
  obtain ⟨-, -, -, hpos, hle⟩ := (validate_eq_ok_iff c).1 h
  simp only [maxChannels] at hle
  omega

/-! ## The layout of a frame -/

/-- Subframes of a frame: a packet of 10 ms is one short frame. -/
def subframes (c : Config) : Nat :=
  if c.packetMs = 10 then maxSubframes / 2 else maxSubframes

/-- Order of the short-term predictor: only the highest rate uses the long one. -/
def predictorOrder (c : Config) : Nat :=
  if c.rateKHz = maxRateKHz then maxPredictorOrder else minPredictorOrder

/-- Taps of the noise-shaping filters. The order does not grow with every step of complexity. -/
def shapingOrder (c : Config) : Nat :=
  match c.complexity with
  | 0 | 2 => 12
  | 1 | 3 => 14
  | 4 | 5 => 16
  | 6 | 7 => 20
  | _ => maxShapingOrder

/-- The layout of a supported configuration's frames. -/
def layout (c : Config) : Except EncodeError Layout := do
  c.validate
  Layout.ofExtents c.subframes c.predictorOrder c.shapingOrder (subframeMs * c.rateKHz)

theorem layout_of_validate_error {c : Config} {error : EncodeError}
    (h : c.validate = .error error) : c.layout = .error error := by
  rw [layout, h]
  rfl

theorem layout_of_validate_ok {c : Config} (h : c.validate = .ok ()) :
    c.layout =
      Layout.ofExtents c.subframes c.predictorOrder c.shapingOrder (subframeMs * c.rateKHz) := by
  rw [layout, h]
  rfl

theorem subframes_valid (c : Config) :
    c.subframes = maxSubframes ∨ c.subframes = maxSubframes / 2 := by
  unfold subframes
  split
  · exact .inr rfl
  · exact .inl rfl

theorem predictorOrder_valid (c : Config) :
    c.predictorOrder = minPredictorOrder ∨ c.predictorOrder = maxPredictorOrder := by
  unfold predictorOrder
  split
  · exact .inr rfl
  · exact .inl rfl

theorem shapingOrder_valid (c : Config) :
    0 < c.shapingOrder ∧ c.shapingOrder ≤ maxShapingOrder ∧ c.shapingOrder % 2 = 0 := by
  unfold shapingOrder
  split <;> decide

/-- Building the layout refuses no configuration that is supported. -/
theorem exists_layout_of_validate_ok {c : Config} (h : c.validate = .ok ()) :
    ∃ layout, c.layout = .ok layout := by
  have hrate : 0 < c.rateKHz := by
    have hmem := ((validate_eq_ok_iff c).1 h).1
    simp only [supportedRates, List.mem_cons, List.not_mem_nil, or_false] at hmem
    omega
  have hsamples : 0 < subframeMs * c.rateKHz := Nat.mul_pos (by decide) hrate
  have hextents := Layout.ofExtents_eq_ok c.subframes_valid c.predictorOrder_valid
    c.shapingOrder_valid hsamples
  exact ⟨_, (layout_of_validate_ok h).trans hextents⟩

theorem validate_of_layout_ok {c : Config} {layout : Layout} (h : c.layout = .ok layout) :
    c.validate = .ok () := by
  cases hvalidate : c.validate with
  | ok => rfl
  | error error =>
    rw [layout_of_validate_error hvalidate] at h
    cases h

/-- Frames in a packet; a packet shorter than a full frame is one short frame. -/
def packetFrames (c : Config) : Nat := max (c.packetMs / maxFrameMs) 1

end Config

end SpeechFrame
