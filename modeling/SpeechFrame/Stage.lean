import SpeechFrame.EncodeError
import SpeechFrame.Fault
import SpeechFrame.Layout
import SpeechFrame.Record.Basic

set_option autoImplicit false

/-! # The two stages of a frame

A frame is encoded by an analysis stage, which fills the record, and a quantisation stage, which
reads it. The library supplies neither: `Stages` is what an encoder is given, two functions that
hand on one common state, so that a stage may remember whatever it likes from call to call. All
that a stage learns about the encoder is in its arguments, and all that it does to it is in its
result; only analysis returns a record, so quantisation cannot write one. -/

namespace SpeechFrame

/-! ## What a stage is handed -/

/-- The frame a stage is called for. -/
structure FrameInfo where
  /-- The channel: mid is 0, side is 1. -/
  channel : Nat
  /-- Frames the channel has completed before this one. -/
  number : Nat
  layout : Layout
  deriving DecidableEq, Repr

/-- What a channel remembers of its gains from frame to frame. -/
structure GainMemory where
  /-- Gain index of the last quantised subframe, from which the next one is coded. -/
  gainIndex : Int8 := initialGainIndex
  deriving DecidableEq, Repr, Inhabited

/-- Go back to the gain index that a record has kept from before its frame's quantisation. -/
def GainMemory.rollBack (_ : GainMemory) (r : ControlRecord) : GainMemory where
  gainIndex := r.savedGainIndex

/-! ## What a stage answers -/

/-- How a call ended. -/
inductive Verdict where
  | done
  | failed (error : EncodeError)
  /-- The call broke a rule and was cut off there. -/
  | halted (fault : Fault)
  deriving DecidableEq, Repr

/-- What analysis leaves behind, also when it fails or is cut off. -/
structure Analysis (σ : Type) where
  state : σ
  memory : GainMemory
  /-- The record, filled as far as analysis came. -/
  record : ControlRecord
  verdict : Verdict

/-- What quantisation leaves behind, also when it fails or is cut off. -/
structure Quantization (σ : Type) where
  state : σ
  memory : GainMemory
  verdict : Verdict

/-- The two stages, with the state that they share. -/
structure Stages (σ : Type) where
  analyze : σ → FrameInfo → GainMemory → ControlRecord → Analysis σ
  quantize : σ → FrameInfo → GainMemory → ControlRecord → Quantization σ

/-! ## Keeping a record of the calls -/

inductive StageKind where
  | analyze
  | quantize
  deriving DecidableEq, Repr

/-- One call of a stage with everything it was handed. -/
structure StageCall where
  stage : StageKind
  info : FrameInfo
  memory : GainMemory
  record : ControlRecord
  deriving DecidableEq, Repr

/-- The same stages, writing down every call in their state. -/
def Stages.recorded {σ : Type} (stages : Stages σ) : Stages (σ × List StageCall) where
  analyze := fun (s, calls) info memory record =>
    let a := stages.analyze s info memory record
    { a with state := (a.state, calls ++ [⟨.analyze, info, memory, record⟩]) }
  quantize := fun (s, calls) info memory record =>
    let q := stages.quantize s info memory record
    { q with state := (q.state, calls ++ [⟨.quantize, info, memory, record⟩]) }

end SpeechFrame
