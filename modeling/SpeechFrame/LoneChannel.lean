import SpeechFrame.Run

set_option autoImplicit false

/-! # Channels on their own

A channel can be used without an encoder, and goes through a list of channel actions then
(`Channel.perform`). For two channels on their own to do what a stereo encoder does, somebody has
to tell each of them what to do. `midActions` and `sideActions` read this off the steps asked of the
encoder: the side channel is to encode a frame only if the mid channel has just done so, which is
the only thing about one channel that matters to the other.

Stages may carry something from one call to the next, and in an encoder the two channels share
them. For stages that do not (`Stages.Memoryless`) a call is the same in whatever company. -/

namespace SpeechFrame

variable {σ : Type}

/-- Stages for which only what they are handed counts, and not what they remember. -/
structure Stages.Memoryless (stages : Stages σ) : Prop where
  analyze_memory : ∀ s s' info memory record,
    (stages.analyze s info memory record).memory = (stages.analyze s' info memory record).memory
  analyze_record : ∀ s s' info memory record,
    (stages.analyze s info memory record).record = (stages.analyze s' info memory record).record
  analyze_verdict : ∀ s s' info memory record,
    (stages.analyze s info memory record).verdict = (stages.analyze s' info memory record).verdict
  quantize_memory : ∀ s s' info memory record,
    (stages.quantize s info memory record).memory = (stages.quantize s' info memory record).memory
  quantize_verdict : ∀ s s' info memory record,
    (stages.quantize s info memory record).verdict = (stages.quantize s' info memory record).verdict

/-- Do several things to a channel on its own: the channel and the stages in the end. -/
def Channel.perform (c : Channel) (s : σ) : List (ChannelAction σ) → Channel × σ
  | [] => (c, s)
  | action :: rest => (c.act s action).after.perform (c.act s action).state rest

namespace Config

/-- What a channel on its own has to do when the configuration changes: start again at another
    sampling rate, and just go on with the new layout at the same. -/
def channelAction (c next : Config) (layout : Layout) : ChannelAction σ :=
  if next.rateKHz = c.rateKHz then .relayout layout else .restart layout

/-- What a mid channel on its own has to do, beginning under a configuration. -/
def midActions (c : Config) : List (Step σ) → List (ChannelAction σ)
  | [] => []
  | .reconfigure next :: rest =>
    match next.layout with
    | .ok layout => c.channelAction next layout :: next.midActions rest
    | .error _ => c.midActions rest
  | .encode stages :: rest => .encode 0 stages :: c.midActions rest

/-- What a side channel on its own has to do next to a mid channel on its own. -/
def sideActions (c : Config) (mid : Channel) (s : σ) : List (Step σ) → List (ChannelAction σ)
  | [] => []
  | .reconfigure next :: rest =>
    match next.layout with
    | .ok layout =>
      let r := mid.act s (c.channelAction next layout)
      c.channelAction next layout :: next.sideActions r.after r.state rest
    | .error _ => c.sideActions mid s rest
  | .encode stages :: rest =>
    let run := mid.encode 0 stages s
    if run.verdict = .done then .encode 1 stages :: c.sideActions run.after run.state rest
    else c.sideActions run.after run.state rest

end Config

/-- A step that keeps both channels active, with stages that do not remember. -/
def Step.Separable : Step σ → Prop
  | .reconfigure config => config.validate = .ok () → config.channels = 2
  | .encode stages => stages.Memoryless

end SpeechFrame
