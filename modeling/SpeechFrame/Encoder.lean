import SpeechFrame.Channel

set_option autoImplicit false

/-! # The encoder

An encoder holds a mid and a side channel under one configuration. Both are there at all times; a
configuration with one channel leaves the side channel inactive, out of reach of callers, and it
is cleared when it becomes active again.

The active channels are the leading ones of the two, as many as the configuration says. A
configuration in force that says more would be a fault as soon as a channel is looked at or a frame
is encoded; no supported one does. -/

namespace SpeechFrame

/-- A mid and a side channel under one configuration. -/
structure Encoder where
  /-- The configuration in force. -/
  config : Config
  mid : Channel
  /-- Channel 1, active or not. -/
  side : Channel
  deriving DecidableEq, Repr

namespace Encoder

/-- An encoder that has encoded nothing yet, if the configuration is supported. -/
def ofConfig (config : Config) : Except EncodeError Encoder := do
  let layout ← config.layout
  return { config, mid := .fresh layout, side := .fresh layout }

/-! ## Channels -/

/-- The channel of a number, active or not. -/
def held (e : Encoder) : Nat → Option Channel
  | 0 => some e.mid
  | 1 => some e.side
  | _ => none

/-- The channel of a number, if it is active. -/
def channel (e : Encoder) (index : Nat) : Except Fault (Option Channel) := do
  let active ← sliceTo e.config.channels [e.mid, e.side]
  return active[index]?

/-- Put another channel in the place of a number. -/
def setChannel (e : Encoder) (index : Nat) (c : Channel) : Encoder :=
  match index with
  | 0 => { e with mid := c }
  | 1 => { e with side := c }
  | _ => e

/-- There are as many channels as are active, and then the others are out of reach. -/
theorem channel_eq_ok {e : Encoder} (h : e.config.channels ≤ maxChannels) (index : Nat) :
    e.channel index = .ok (if index < e.config.channels then e.held index else none) := by
  have hheld : [e.mid, e.side][index]? = e.held index := by
    match index with
    | 0 => rfl
    | 1 => rfl
    | _ + 2 => rfl
  rw [channel, sliceTo_of_le h, ← hheld, ← List.getElem?_take]
  rfl

theorem channel_of_active {e : Encoder} {index : Nat} (h : e.config.channels ≤ maxChannels)
    (hactive : index < e.config.channels) : e.channel index = .ok (e.held index) := by
  rw [channel_eq_ok h, if_pos hactive]

theorem channel_of_inactive {e : Encoder} {index : Nat} (h : e.config.channels ≤ maxChannels)
    (hinactive : e.config.channels ≤ index) : e.channel index = .ok none := by
  rw [channel_eq_ok h, if_neg (Nat.not_lt.2 hinactive)]

theorem setChannel_config (e : Encoder) (index : Nat) (c : Channel) :
    (e.setChannel index c).config = e.config := by
  unfold setChannel
  split <;> rfl

/-- Putting a channel in place shows at its own number only. -/
theorem held_setChannel (e : Encoder) (index : Nat) (c : Channel) (i : Nat) :
    (e.setChannel index c).held i =
      if i = index then (e.held index).map fun _ => c else e.held i := by
  match index, i with
  | 0, 0 => rfl
  | 0, 1 => rfl
  | 0, _ + 2 => rfl
  | 1, 0 => rfl
  | 1, 1 => rfl
  | 1, i + 2 => rw [if_neg (by omega)]; rfl
  | index + 2, i =>
    have hset : e.setChannel (index + 2) c = e := rfl
    have hnone : e.held (index + 2) = none := rfl
    rw [hset, hnone, Option.map_none]
    split
    · next h => rw [h, hnone]
    · rfl

/-! ## Changing the configuration -/

/-- Whether a change to another configuration clears the channel of a number: the sampling rate
    changes, or the channel becomes active. -/
def clears (e : Encoder) (config : Config) (index : Nat) : Bool :=
  config.rateKHz ≠ e.config.rateKHz ∨ (e.config.channels ≤ index ∧ index < config.channels)

/-- A channel after a change of configuration. Without a reason to clear it, only its layout is
    new. -/
def adapt (e : Encoder) (config : Config) (layout : Layout) (index : Nat) (c : Channel) :
    Channel :=
  if e.clears config index then c.restart layout else c.relayout layout

def adaptEvents (e : Encoder) (config : Config) (layout : Layout) (index : Nat) (c : Channel) :
    List Event :=
  if e.clears config index then c.restartEvents layout else c.relayoutEvents layout

/-- Change to another configuration, if it is supported. The inactive channel follows too. -/
def reconfigure (e : Encoder) (config : Config) : Except EncodeError Encoder := do
  let layout ← config.layout
  return { config
           mid := e.adapt config layout 0 e.mid
           side := e.adapt config layout 1 e.side }

theorem clears_iff (e : Encoder) (config : Config) (index : Nat) :
    e.clears config index = true ↔ config.rateKHz ≠ e.config.rateKHz ∨
      (e.config.channels ≤ index ∧ index < config.channels) := by
  rw [clears, decide_eq_true_iff]

/-- What a change clears is a matter of the configuration that was in force. -/
theorem clears_congr {e₁ e₂ : Encoder} (h : e₁.config = e₂.config) : e₁.clears = e₂.clears := by
  funext config index
  rw [clears, clears, h]

theorem adapt_congr {e₁ e₂ : Encoder} (h : e₁.config = e₂.config) : e₁.adapt = e₂.adapt := by
  funext config layout index c
  rw [adapt, adapt, clears_congr h]

theorem adapt_of_clears {e : Encoder} {config : Config} {index : Nat}
    (h : e.clears config index = true) (layout : Layout) (c : Channel) :
    e.adapt config layout index c = .fresh layout := by
  rw [adapt, if_pos h, Channel.restart_eq_fresh]

/-- Of a channel that is cleared nothing is left, whatever encoder it was held by. -/
theorem map_adapt_of_clears {e : Encoder} {config : Config} {index : Nat}
    (h : e.clears config index = true) (layout : Layout) :
    (e.held index).map (e.adapt config layout index) =
      if index < maxChannels then some (.fresh layout) else none := by
  rw [Option.map_congr fun c _ => adapt_of_clears h layout c]
  match index with
  | 0 => rfl
  | 1 => rfl
  | _ + 2 => rfl

theorem adapt_of_not_clears {e : Encoder} {config : Config} {index : Nat}
    (h : ¬ e.clears config index = true) (layout : Layout) (c : Channel) :
    e.adapt config layout index c = { c with layout } :=
  if_neg h

theorem reconfigure_of_error {config : Config} {error : EncodeError}
    (h : config.layout = .error error) (e : Encoder) : e.reconfigure config = .error error := by
  rw [reconfigure, h]
  rfl

theorem reconfigure_of_ok {config : Config} {layout : Layout} (h : config.layout = .ok layout)
    (e : Encoder) :
    e.reconfigure config = .ok
      { config
        mid := e.adapt config layout 0 e.mid
        side := e.adapt config layout 1 e.side } := by
  rw [reconfigure, h]
  rfl

theorem held_of_reconfigure {e changed : Encoder} {config : Config} {layout : Layout}
    (hlayout : config.layout = .ok layout) (h : e.reconfigure config = .ok changed) (index : Nat) :
    changed.held index = (e.held index).map (e.adapt config layout index) := by
  rw [reconfigure_of_ok hlayout] at h
  cases h
  match index with
  | 0 => rfl
  | 1 => rfl
  | _ + 2 => rfl

/-- All that an accepted change does: the configuration is in force, and each channel has been
    adapted to it, active or not. -/
theorem reconfigure_eq_ok {e changed : Encoder} {config : Config}
    (h : e.reconfigure config = .ok changed) :
    ∃ layout, config.layout = .ok layout ∧ changed.config = config ∧
      ∀ index, changed.held index = (e.held index).map (e.adapt config layout index) := by
  cases hlayout : config.layout with
  | error error =>
    rw [reconfigure_of_error hlayout] at h
    cases h
  | ok layout =>
    refine ⟨layout, rfl, ?_, held_of_reconfigure hlayout h⟩
    rw [reconfigure_of_ok hlayout] at h
    cases h
    rfl

def reconfigureEvents (e : Encoder) (config : Config) : List Event :=
  match config.layout with
  | .error _ => config.layoutEvents
  | .ok layout =>
    e.adaptEvents config layout 0 e.mid ++ e.adaptEvents config layout 1 e.side

/-! ## Encoding a frame -/

section

variable {σ : Type}

/-- Go on with the channel of a number, if no channel before it has stopped. -/
def encodeOn (stages : Stages σ) (run : FrameRun σ Encoder) (index : Nat) : FrameRun σ Encoder :=
  match run.verdict, run.after.held index with
  | .done, some c =>
    let r := c.encode index stages run.state
    { after := run.after.setChannel index r.after
      state := r.state
      verdict := r.verdict
      events := run.events ++ r.events }
  | _, _ => run

/-- Encode one frame on every active channel, mid before side. The first channel that stops keeps
    the rest from being reached. -/
def encode (e : Encoder) (stages : Stages σ) (s : σ) : FrameRun σ Encoder :=
  match sliceTo e.config.channels (List.range maxChannels) with
  | .error fault => ⟨e, s, .halted fault, []⟩
  | .ok active => active.foldl (encodeOn stages) ⟨e, s, .done, []⟩

/-- There are as many channels as are active, and each of them has its turn. -/
theorem encode_eq_foldl {e : Encoder} (h : e.config.channels ≤ maxChannels) (stages : Stages σ)
    (s : σ) :
    e.encode stages s =
      (List.range e.config.channels).foldl (encodeOn stages) ⟨e, s, .done, []⟩ := by
  rw [encode, sliceTo_of_le (by rw [List.length_range]; exact h), List.take_range,
    Nat.min_eq_left h]

/-- A frame of more channels than there are does not begin. -/
theorem encode_of_too_many {e : Encoder} (h : maxChannels < e.config.channels) (stages : Stages σ)
    (s : σ) :
    e.encode stages s = ⟨e, s, .halted (.outOfExtent e.config.channels maxChannels), []⟩ := by
  rw [encode, sliceTo_of_lt (by rw [List.length_range]; exact h), List.length_range]

theorem encodeOn_of_stopped {run : FrameRun σ Encoder} (h : run.verdict ≠ .done)
    (stages : Stages σ) (index : Nat) : encodeOn stages run index = run := by
  unfold encodeOn
  split
  · next hdone _ => exact absurd hdone h
  · rfl

/-- A turn leaves the configuration alone, whatever becomes of it. -/
theorem encodeOn_config (stages : Stages σ) (run : FrameRun σ Encoder) (index : Nat) :
    (encodeOn stages run index).after.config = run.after.config := by
  unfold encodeOn
  split
  · exact setChannel_config run.after index _
  · rfl

theorem foldl_encodeOn_config (stages : Stages σ) (run : FrameRun σ Encoder)
    (numbers : List Nat) :
    (numbers.foldl (encodeOn stages) run).after.config = run.after.config := by
  induction numbers generalizing run with
  | nil => rfl
  | cons index rest ih =>
    exact (ih (encodeOn stages run index)).trans (encodeOn_config stages run index)

end

end Encoder

end SpeechFrame
