import SpeechFrame.Encoder

set_option autoImplicit false

/-! # Sessions

A caller holds an encoder and does one thing after another to it: it asks for configurations, has
frames encoded, and looks at channels or works on one directly. `Action` lists what there is to
do, `Encoder.act` says what comes of it, and `Encoder.watch` is all that the caller sees of a whole
session. What the caller does not see is a channel that is not active.

Stages may change from one action to the next. All of them share one state `σ`, of which each may
use a part of its own, so a session quantifies over stages that remember whatever they like. -/

namespace SpeechFrame

/-! ## What a caller does -/

/-- Something done to a channel that the caller has borrowed. -/
inductive ChannelAction (σ : Type) where
  | encode (index : Nat) (stages : Stages σ)
  | relayout (layout : Layout)
  | restart (layout : Layout)
  /-- Anything that needs no stage: set the gain index, roll it back by some record, put a fresh
      channel or a copy in the channel's place. -/
  | change (f : Channel → Channel)

/-- Something done to an encoder. -/
inductive Action (σ : Type) where
  | reconfigure (config : Config)
  | encode (stages : Stages σ)
  | look (index : Nat)
  | onChannel (index : Nat) (action : ChannelAction σ)

/-! ## What comes of it -/

/-- What a caller is answered. -/
inductive Answer where
  | ended (verdict : Verdict)
  /-- A channel was asked for, and shown if it is active. -/
  | shown (channel : Option Channel)
  /-- There was no active channel to do something to. -/
  | inactive

/-- What comes of an action on an encoder or a channel of type `α`. -/
structure Reaction (σ α : Type) where
  after : α
  state : σ
  answer : Answer
  calls : List StageCall

/-- The reaction that a recorded frame amounts to. -/
def FrameRun.reaction {σ α : Type} (run : FrameRun (σ × List StageCall) α) : Reaction σ α where
  after := run.after
  state := run.state.1
  answer := .ended run.verdict
  calls := run.state.2

def Channel.act {σ : Type} (c : Channel) (s : σ) : ChannelAction σ → Reaction σ Channel
  | .encode index stages => (c.encode index stages.recorded (s, [])).reaction
  | .relayout layout => ⟨c.relayout layout, s, .ended .done, []⟩
  | .restart layout => ⟨c.restart layout, s, .ended .done, []⟩
  | .change f => ⟨f c, s, .ended .done, []⟩

namespace Encoder

/-- Do something to an encoder. A refused configuration leaves it as it is, and so does whatever
    is meant for a channel that is not active. -/
def act {σ : Type} (e : Encoder) (s : σ) : Action σ → Reaction σ Encoder
  | .reconfigure config =>
    match e.reconfigure config with
    | .ok changed => ⟨changed, s, .ended .done, []⟩
    | .error error => ⟨e, s, .ended (.failed error), []⟩
  | .encode stages => (e.encode stages.recorded (s, [])).reaction
  | .look index =>
    match e.channel index with
    | .ok shown => ⟨e, s, .shown shown, []⟩
    | .error fault => ⟨e, s, .ended (.halted fault), []⟩
  | .onChannel index action =>
    match e.channel index with
    | .ok (some c) =>
      let r := c.act s action
      ⟨e.setChannel index r.after, r.state, r.answer, r.calls⟩
    | .ok none => ⟨e, s, .inactive, []⟩
    | .error fault => ⟨e, s, .ended (.halted fault), []⟩

/-! ## What a caller sees -/

/-- What can be seen of an encoder once an action is over. -/
structure Sight (σ : Type) where
  answer : Answer
  calls : List StageCall
  state : σ
  /-- The configuration in force, and with it the number of active channels. -/
  config : Config
  channels : Nat → Except Fault (Option Channel)

def sight {σ : Type} (r : Reaction σ Encoder) : Sight σ where
  answer := r.answer
  calls := r.calls
  state := r.state
  config := r.after.config
  channels := r.after.channel

/-- What is seen of a session, action by action. -/
def watch {σ : Type} (e : Encoder) (s : σ) : List (Action σ) → List (Sight σ)
  | [] => []
  | action :: rest =>
    let r := e.act s action
    sight r :: r.after.watch r.state rest

end Encoder

end SpeechFrame
