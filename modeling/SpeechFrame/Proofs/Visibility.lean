import SpeechFrame.Session

set_option autoImplicit false

/-! # What the inactive channel can do to a session

Nothing: an encoder's answers, its calls of stages and everything it shows are a matter of its
configuration and its active channels alone, for as long as the session goes on. The relation
`Encoder.SameView` holds of two encoders that agree on these. Every action keeps it, because a
channel that becomes active is cleared on the way (`SameView.reconfigure`), and two encoders so
related answer an action alike (`SameView.act`), so whole sessions look the same (`SameView.watch`).
Which channels are active plays no part in the relation, so it lasts through any change of it. -/

namespace SpeechFrame.Encoder

variable {σ : Type}

/-- Two encoders of which a caller sees the same. -/
structure SameView (e₁ e₂ : Encoder) : Prop where
  config_eq : e₁.config = e₂.config
  channels_le : e₁.config.channels ≤ maxChannels
  held_eq : ∀ index < e₁.config.channels, e₁.held index = e₂.held index

namespace SameView

variable {e₁ e₂ : Encoder}

theorem channel_eq (h : SameView e₁ e₂) (index : Nat) : e₁.channel index = e₂.channel index := by
  have hle : e₂.config.channels ≤ maxChannels := h.config_eq ▸ h.channels_le
  rw [channel_eq_ok h.channels_le, channel_eq_ok hle, ← h.config_eq]
  split
  · next hactive => rw [h.held_eq index hactive]
  · rfl

theorem setChannel (h : SameView e₁ e₂) {index : Nat} (hactive : index < e₁.config.channels)
    (c : Channel) : SameView (e₁.setChannel index c) (e₂.setChannel index c) := by
  refine ⟨?_, ?_, fun i hi => ?_⟩
  · rw [setChannel_config, setChannel_config, h.config_eq]
  · rw [setChannel_config]
    exact h.channels_le
  · rw [setChannel_config] at hi
    rw [held_setChannel, held_setChannel, h.held_eq index hactive, h.held_eq i hi]

/-! ## Changing the configuration -/

/-- A channel that is active after a change looks the same afterwards: it was active before, and
    so looked the same, or becomes active now, and is cleared whatever it held. -/
theorem map_adapt_eq (h : SameView e₁ e₂) (config : Config) (layout : Layout) {index : Nat}
    (hactive : index < config.channels) :
    (e₁.held index).map (e₁.adapt config layout index) =
      (e₂.held index).map (e₂.adapt config layout index) := by
  have hclears : e₁.clears config index = e₂.clears config index := by
    rw [clears_congr h.config_eq]
  by_cases hcl : e₂.clears config index = true
  · rw [map_adapt_of_clears (hclears.trans hcl), map_adapt_of_clears hcl]
  · have hwas : index < e₂.config.channels := by
      rw [clears_iff] at hcl
      omega
    rw [h.held_eq index (h.config_eq ▸ hwas)]
    refine Option.map_congr fun c _ => ?_
    rw [adapt_of_not_clears (hclears ▸ hcl), adapt_of_not_clears hcl]

theorem reconfigure (h : SameView e₁ e₂) (config : Config) :
    (∃ error, e₁.reconfigure config = .error error ∧ e₂.reconfigure config = .error error) ∨
      ∃ e₁' e₂', e₁.reconfigure config = .ok e₁' ∧ e₂.reconfigure config = .ok e₂' ∧
        SameView e₁' e₂' := by
  cases hlayout : config.layout with
  | error error =>
    exact .inl ⟨error, reconfigure_of_error hlayout e₁, reconfigure_of_error hlayout e₂⟩
  | ok layout =>
    have hvalid := Config.validate_of_layout_ok hlayout
    have hle := ((Config.validate_eq_ok_iff config).1 hvalid).2.2.2.2
    refine .inr ⟨_, _, reconfigure_of_ok hlayout e₁, reconfigure_of_ok hlayout e₂, rfl, hle, ?_⟩
    intro index hactive
    have hadapt := h.map_adapt_eq config layout hactive
    match index with
    | 0 => exact hadapt
    | 1 => exact hadapt
    | _ + 2 => rfl

end SameView

/-! ## Encoding a frame -/

/-- Two runs of a frame of which a caller sees the same. -/
structure SameRun (run₁ run₂ : FrameRun σ Encoder) : Prop where
  after : SameView run₁.after run₂.after
  state_eq : run₁.state = run₂.state
  verdict_eq : run₁.verdict = run₂.verdict
  events_eq : run₁.events = run₂.events

theorem SameRun.encodeOn {run₁ run₂ : FrameRun σ Encoder} (h : SameRun run₁ run₂)
    (stages : Stages σ) {index : Nat} (hactive : index < run₁.after.config.channels) :
    SameRun (Encoder.encodeOn stages run₁ index) (Encoder.encodeOn stages run₂ index) := by
  unfold Encoder.encodeOn
  rw [h.verdict_eq, h.after.held_eq index hactive, h.state_eq, h.events_eq]
  split
  · exact ⟨h.after.setChannel hactive _, rfl, rfl, rfl⟩
  · exact h

theorem SameRun.foldl {run₁ run₂ : FrameRun σ Encoder} (h : SameRun run₁ run₂) (stages : Stages σ)
    {numbers : List Nat} (hactive : ∀ index ∈ numbers, index < run₁.after.config.channels) :
    SameRun (numbers.foldl (Encoder.encodeOn stages) run₁)
      (numbers.foldl (Encoder.encodeOn stages) run₂) := by
  induction numbers generalizing run₁ run₂ with
  | nil => exact h
  | cons index rest ih =>
    obtain ⟨hindex, hrest⟩ := List.forall_mem_cons.1 hactive
    refine ih (h.encodeOn stages hindex) ?_
    rw [encodeOn_config]
    exact hrest

theorem SameView.encode {e₁ e₂ : Encoder} (h : SameView e₁ e₂) (stages : Stages σ) (s : σ) :
    SameRun (e₁.encode stages s) (e₂.encode stages s) := by
  have hstart : SameRun ⟨e₁, s, .done, []⟩ ⟨e₂, s, .done, []⟩ := ⟨h, rfl, rfl, rfl⟩
  have hle : e₂.config.channels ≤ maxChannels := h.config_eq ▸ h.channels_le
  rw [encode_eq_foldl h.channels_le, encode_eq_foldl hle, ← h.config_eq]
  exact hstart.foldl stages fun index hindex => List.mem_range.1 hindex

/-! ## Actions and sessions -/

theorem sight_eq {r₁ r₂ : Reaction σ Encoder} (hanswer : r₁.answer = r₂.answer)
    (hcalls : r₁.calls = r₂.calls) (hstate : r₁.state = r₂.state)
    (h : SameView r₁.after r₂.after) : sight r₁ = sight r₂ := by
  have hchannels : r₁.after.channel = r₂.after.channel := funext h.channel_eq
  rw [sight, sight, hanswer, hcalls, hstate, h.config_eq, hchannels]

/-- One action: the caller sees the same, and will go on doing so. -/
theorem SameView.act {e₁ e₂ : Encoder} (h : SameView e₁ e₂) (s : σ) (action : Action σ) :
    sight (e₁.act s action) = sight (e₂.act s action) ∧
      SameView (e₁.act s action).after (e₂.act s action).after := by
  cases action with
  | reconfigure config =>
    rcases h.reconfigure config with ⟨error, h₁, h₂⟩ | ⟨e₁', e₂', h₁, h₂, h'⟩
    · simp only [Encoder.act, h₁, h₂]
      exact ⟨sight_eq rfl rfl rfl h, h⟩
    · simp only [Encoder.act, h₁, h₂]
      exact ⟨sight_eq rfl rfl rfl h', h'⟩
  | encode stages =>
    have hrun := h.encode stages.recorded (s, [])
    simp only [Encoder.act, FrameRun.reaction, hrun.verdict_eq, hrun.state_eq]
    exact ⟨sight_eq rfl rfl rfl hrun.after, hrun.after⟩
  | look index =>
    simp only [Encoder.act, h.channel_eq index]
    cases e₂.channel index with
    | error fault => exact ⟨sight_eq rfl rfl rfl h, h⟩
    | ok shown => exact ⟨sight_eq rfl rfl rfl h, h⟩
  | onChannel index action =>
    have hchannel := h.channel_eq index
    rw [channel_eq_ok h.channels_le] at hchannel
    by_cases hactive : index < e₁.config.channels
    · rw [if_pos hactive] at hchannel
      simp only [Encoder.act, h.channel_eq index, ← hchannel]
      cases e₁.held index with
      | none => exact ⟨sight_eq rfl rfl rfl h, h⟩
      | some c =>
        have hset := h.setChannel hactive (c.act s action).after
        exact ⟨sight_eq rfl rfl rfl hset, hset⟩
    · rw [if_neg hactive] at hchannel
      simp only [Encoder.act, h.channel_eq index, ← hchannel]
      exact ⟨sight_eq rfl rfl rfl h, h⟩

theorem SameView.watch {e₁ e₂ : Encoder} (h : SameView e₁ e₂) (s : σ)
    (actions : List (Action σ)) : e₁.watch s actions = e₂.watch s actions := by
  induction actions generalizing e₁ e₂ s with
  | nil => rfl
  | cons action rest ih =>
    obtain ⟨hsight, hafter⟩ := h.act s action
    have hstate : (e₁.act s action).state = (e₂.act s action).state :=
      congrArg Sight.state hsight
    rw [Encoder.watch, Encoder.watch, hsight, hstate, ih hafter]

/-! ## The hidden side channel -/

theorem SameView.of_mono {e₁ e₂ : Encoder} (hconfig : e₁.config = e₂.config)
    (hmono : e₁.config.channels = 1) (hmid : e₁.mid = e₂.mid) : SameView e₁ e₂ := by
  refine ⟨hconfig, Config.channels_le (.inl hmono), fun index hindex => ?_⟩
  obtain rfl : index = 0 := by omega
  rw [held, held, hmid]

/-- **A mono encoder's side channel is never seen.** Two encoders with one active channel that
    differ in their inactive channels alone show the same in every session, in each answer, each
    call of a stage and everything to be looked at after each action; also once the channel has
    become active. -/
theorem watch_eq_of_mono {e₁ e₂ : Encoder} (hconfig : e₁.config = e₂.config)
    (hmono : e₁.config.channels = 1) (hmid : e₁.mid = e₂.mid) (s : σ)
    (actions : List (Action σ)) : e₁.watch s actions = e₂.watch s actions :=
  (SameView.of_mono hconfig hmono hmid).watch s actions

/-- A used and a clean side channel, in a session that activates it and encodes on it. -/
theorem watch_eq_of_used_side :
    let clean : Encoder := ⟨{}, .fresh .full, .fresh .full⟩
    let used : Encoder := { clean with side := { clean.side with memory := ⟨42⟩, frames := 7 } }
    let stages : Stages Unit :=
      ⟨fun s _ memory record => ⟨s, memory, record, .done⟩, fun s _ memory _ => ⟨s, memory, .done⟩⟩
    let session : List (Action Unit) := [.reconfigure { channels := 2 }, .encode stages, .look 1]
    clean.config = used.config ∧ clean.config.channels = 1 ∧ clean.mid = used.mid ∧
      clean.side ≠ used.side ∧ clean.watch () session = used.watch () session := by
  intro clean used stages session
  have hside : clean.side ≠ used.side := fun h => absurd (congrArg Channel.frames h) (by decide)
  exact ⟨rfl, rfl, rfl, hside, watch_eq_of_mono rfl rfl rfl () session⟩

end SpeechFrame.Encoder
