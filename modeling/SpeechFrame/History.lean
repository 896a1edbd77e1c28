import SpeechFrame.Reconfiguration
import SpeechFrame.Run

set_option autoImplicit false

/-! # The history of a channel

What a session does to one channel is that changes of configuration clear it and that frames of its
own come to an end. `Encoder.history` lists this in order, as a session goes along, and
`Mark.doneSinceCleared` is what a frame counter ought to show at the end of such a list. -/

namespace SpeechFrame

variable {σ : Type}

/-- One thing that has happened to a channel. -/
inductive Mark where
  | cleared
  /-- A frame of the channel has come to an end, good or bad. -/
  | ended (verdict : Verdict)
  deriving DecidableEq, Repr

/-- How many frames have ended well since the channel was last cleared, if it ever was. -/
def Mark.doneSinceCleared (history : List Mark) : Nat :=
  (history.reverse.takeWhile (· ≠ .cleared)).count (.ended .done)

namespace Encoder

/-- The frame of the channel of a number in the course of a frame of the encoder, if the channel is
    active and none before it has stopped. -/
def turn (e : Encoder) (stages : Stages σ) (s : σ) (index : Nat) : Option (FrameRun σ Channel) :=
  let before := (List.range index).foldl (encodeOn stages) ⟨e, s, .done, []⟩
  match before.verdict, before.after.channel index with
  | .done, .ok (some c) => some (c.encode index stages before.state)
  | _, _ => none

/-- What one step does to the channel of a number, if it does anything. -/
def marks (e : Encoder) (s : σ) (index : Nat) : Step σ → List Mark
  | .reconfigure config =>
    if config.isSupported ∧ e.config.Clears config index then [.cleared] else []
  | .encode stages => (e.turn stages s index).toList.map fun run => .ended run.verdict

/-- What a session does to the channel of a number, the earliest first. -/
def history (e : Encoder) (s : σ) (index : Nat) : List (Step σ) → List Mark
  | [] => []
  | step :: rest =>
    let r := e.act s step.action
    e.marks s index step ++ r.after.history r.state index rest

end Encoder

end SpeechFrame
