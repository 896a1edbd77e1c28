set_option autoImplicit false

/-! # Extents of the frame records

The per-frame records are always held at their largest size. This file fixes those sizes and the
few timing and channel limits that go with them; how much of a record one frame really uses is
said by `SpeechFrame.Layout`. The extents are reducible, so that a `Vector` of one of them is a
vector of a literal length to every tactic. -/

namespace SpeechFrame

/-! ## Channels and timing -/

/-- Channels an encoder holds: mid and side. -/
abbrev maxChannels : Nat := 2

abbrev maxRateKHz : Nat := 16

abbrev maxFrameMs : Nat := 20

abbrev subframeMs : Nat := 5

/-! ## Subframes and filter orders -/

/-- Subframes of a full frame; a short frame has half as many. -/
abbrev maxSubframes : Nat := 4

/-- Order of the short-term predictor at the highest rate. -/
abbrev maxPredictorOrder : Nat := 16

/-- Order of the short-term predictor at the lower rates. -/
abbrev minPredictorOrder : Nat := 10

abbrev maxShapingOrder : Nat := 24

/-- Taps of the long-term predictor in each subframe. -/
abbrev ltpOrder : Nat := 5

/-- Entries of a bank that holds one long-term predictor for each subframe. -/
abbrev ltpBankSize : Nat := maxSubframes * ltpOrder

/-- Entries of a bank that holds one noise-shaping filter for each subframe. -/
abbrev shapingBankSize : Nat := maxSubframes * maxShapingOrder

/-! ## Gain memory -/

/-- Gain index from which a cleared channel starts delta coding. -/
def initialGainIndex : Int8 := 10

end SpeechFrame
