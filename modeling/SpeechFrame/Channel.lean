import SpeechFrame.Event
import SpeechFrame.Slice
import SpeechFrame.Stage

set_option autoImplicit false

/-! # One channel

A channel owns one record and uses it again for every frame, together with the little that has to
survive from frame to frame: the gain memory and the number of frames completed. `encode` fixes
the order in which the record is touched. It is cleared, filled by analysis, and read by
quantisation, so no parameter of one frame reaches the next, not even of one that failed half-way;
the gain memory is all that does. -/

namespace SpeechFrame

-- The powers are those of the core library, whatever else is imported.
attribute [local instance (high)] instPowNat

/-- A channel between two frames. -/
structure Channel where
  layout : Layout := .full
  /-- The record as the last frame left it. -/
  record : ControlRecord := .zero
  memory : GainMemory := {}
  /-- Frames completed since the channel was cleared. -/
  frames : Nat := 0
  deriving DecidableEq, Repr, Inhabited

/-- What comes of encoding a frame on an encoder or a channel of type `α`. -/
structure FrameRun (σ α : Type) where
  after : α
  /-- The state of the stages after the last call. -/
  state : σ
  verdict : Verdict
  events : List Event

namespace Channel

/-- A channel that has encoded nothing yet. -/
def fresh (layout : Layout) : Channel := { layout }

/-! ## Changing the layout -/

/-- Go on with another layout. All memory stays. -/
def relayout (c : Channel) (layout : Layout) : Channel := { c with layout }

/-- What the log says of `relayout`: nothing, when the layout stays the same. -/
def relayoutEvents (c : Channel) (layout : Layout) : List Event :=
  if c.layout = layout then [] else [.layoutChanged c.layout layout]

/-- Start again with another layout. No memory stays. -/
def restart (c : Channel) (layout : Layout) : Channel where
  layout
  record := c.record.clear
  memory := {}
  frames := 0

theorem restart_eq_fresh (c : Channel) (layout : Layout) : c.restart layout = fresh layout := by
  rw [restart, ControlRecord.clear_eq_zero, fresh]

def restartEvents (c : Channel) (layout : Layout) : List Event :=
  [.channelRestarted c.layout layout]

/-- Go back to the gain index that a record has kept. -/
def rollBack (c : Channel) (r : ControlRecord) : Channel :=
  { c with memory := c.memory.rollBack r }

/-! ## Encoding a frame -/

/-- What stages are told about the channel's next frame. -/
def nextFrame (c : Channel) (index : Nat) : FrameInfo where
  channel := index
  number := c.frames
  layout := c.layout

/-- Count a completed frame. The counter is a word of 64 bits. -/
def countFrame (c : Channel) : Channel × Verdict :=
  if c.frames + 1 < 2 ^ (64 : Nat) then
    ({ c with frames := c.frames + 1 }, .done)
  else (c, .halted .frameCount)

/-- A layout has no more subframes than a record has gains. -/
theorem sliceTo_gains (l : Layout) (r : ControlRecord) :
    sliceTo l.subframes r.gains.toList = .ok (r.gains.toList.take l.subframes) :=
  sliceTo_of_le (by rw [Vector.length_toList]; exact l.subframes_le)

/-- Encode one frame as channel number `index`. A stage that does not finish ends the frame; what
    it has done to the record and the gain memory stays, and the frame is not counted. -/
def encode {σ : Type} (c : Channel) (index : Nat) (stages : Stages σ) (s : σ) :
    FrameRun σ Channel :=
  let started := Event.frameStarted index c.frames c.layout.subframes c.memory.gainIndex
  let a := stages.analyze s (c.nextFrame index) c.memory c.record.clear
  let analyzed := { c with record := a.record, memory := a.memory }
  match a.verdict with
  | .failed e => ⟨analyzed, a.state, .failed e, [started, .analysisFailed index c.frames e]⟩
  | .halted f => ⟨analyzed, a.state, .halted f, [started]⟩
  | .done =>
    match sliceTo c.layout.subframes a.record.gains.toList with
    | .error f => ⟨analyzed, a.state, .halted f, [started]⟩
    | .ok gains =>
      let events := [started, .frameAnalyzed index a.record.lambda gains]
      let q := stages.quantize a.state (c.nextFrame index) a.memory a.record
      let quantized := { analyzed with memory := q.memory }
      match q.verdict with
      | .failed e => ⟨quantized, q.state, .failed e,
          events ++ [.quantizationFailed index c.frames e]⟩
      | .halted f => ⟨quantized, q.state, .halted f, events⟩
      | .done =>
        let counted := quantized.countFrame
        ⟨counted.1, q.state, counted.2, events⟩

end Channel

end SpeechFrame
