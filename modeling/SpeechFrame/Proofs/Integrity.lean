import SpeechFrame.Proofs.Steps

set_option autoImplicit false

/-! # What holds of an encoder at all times

The configuration in force is a supported one, so there are one or two active channels, and those
are the channels that a caller gets at (`Encoder.Sound`). No action can change that. The layouts of
the channels are another matter: each channel has a copy of its own, and whoever works on a channel
directly may give it any layout. Left to itself an encoder keeps the copies in step with the
configuration, and a change of configuration brings them back into step, whatever they were. -/

namespace SpeechFrame

variable {σ : Type}

/-- The configuration is supported, and the active channels are the ones within reach. -/
structure Encoder.Sound (e : Encoder) : Prop where
  validate_eq : e.config.validate = .ok ()
  one_le_channels : 1 ≤ e.config.channels
  channels_le_two : e.config.channels ≤ 2
  /-- Exactly the active channels can be looked at, and looking for others is no fault. -/
  exists_channel : ∀ index, ∃ shown, e.channel index = .ok shown ∧
    (shown.isSome ↔ index < e.config.channels)
  /-- Exactly the active channels can be worked on. -/
  inactive_iff : ∀ (σ : Type) (s : σ) (index : Nat) (action : ChannelAction σ),
    (e.act s (.onChannel index action)).answer = .inactive ↔ ¬ index < e.config.channels

/-- Work on a channel always comes to an end, so its answer is never that there is no channel. -/
theorem Channel.act_answer_ne_inactive (c : Channel) (s : σ) (action : ChannelAction σ) :
    (c.act s action).answer ≠ .inactive := by
  cases action with
  | encode index stages =>
    rw [act_encode]
    exact nofun
  | relayout layout => exact nofun
  | restart layout => exact nofun
  | change f => exact nofun

namespace Encoder

variable {e : Encoder}

/-- A supported configuration is all that soundness takes. -/
theorem sound_of_validate (h : e.config.validate = .ok ()) : e.Sound := by
  obtain ⟨-, -, -, hpos, hle⟩ := (Config.validate_eq_ok_iff e.config).1 h
  have hshown : ∀ index, ∃ shown, e.channel index = .ok shown ∧
      (shown.isSome ↔ index < e.config.channels) := by
    intro index
    by_cases hactive : index < e.config.channels
    · refine ⟨_, channel_of_active hle hactive, iff_of_true ?_ hactive⟩
      match index with
      | 0 => rfl
      | 1 => rfl
      | index + 2 => simp only [maxChannels] at hle; omega
    · exact ⟨_, channel_of_inactive hle (Nat.le_of_not_lt hactive), iff_of_false nofun hactive⟩
  refine ⟨h, hpos, hle, hshown, ?_⟩
  intro τ s index action
  obtain ⟨shown, hchannel, hisSome⟩ := hshown index
  rw [← hisSome]
  cases shown with
  | none => simp [act, hchannel]
  | some c => simp [act, hchannel, Channel.act_answer_ne_inactive]

/-- No action puts an unsupported configuration in force. -/
theorem validate_act (h : e.config.validate = .ok ()) (s : σ) (action : Action σ) :
    (e.act s action).after.config.validate = .ok () := by
  cases action with
  | reconfigure config =>
    cases hr : e.reconfigure config with
    | error error =>
      rw [act_reconfigure_of_error hr]
      exact h
    | ok changed =>
      obtain ⟨layout, hlayout, hconfig, -⟩ := reconfigure_eq_ok hr
      rw [act_reconfigure_of_ok hr, hconfig]
      exact Config.validate_of_layout_ok hlayout
  | encode stages =>
    rw [act_encode, encode_config]
    exact h
  | look index =>
    simp only [act]
    split <;> exact h
  | onChannel index action =>
    simp only [act]
    split
    · rw [setChannel_config]
      exact h
    · exact h
    · exact h

theorem sound_run (h : e.config.validate = .ok ()) (s : σ) (actions : List (Action σ)) :
    (e.run s actions).encoder.Sound :=
  sound_of_validate (run_induction (P := fun e => e.config.validate = .ok ())
    (fun _ s action h => validate_act h s action) h s actions)

/-- From an encoder laid out by its configuration, every session of steps leads to another. -/
theorem Coherent.sound_drive {layout : Layout} (h : e.Coherent layout) (s : σ)
    (steps : List (Step σ)) :
    (e.drive s steps).encoder.Sound ∧ ∃ layout', (e.drive s steps).encoder.Coherent layout' :=
  ⟨sound_run (Config.validate_of_layout_ok h.config_layout) s _, h.drive s steps⟩

/-- **Configuration, channels and layouts stay together.** An encoder that is only asked for
    configurations and frames is sound and laid out by its configuration after every session. If
    channels are worked on directly as well, it is still sound, and once another configuration has
    been accepted it is laid out by that again, and stays so until a channel is next worked on. -/
theorem sound_and_coherent {config : Config} (he : ofConfig config = .ok e) (s : σ) :
    (∀ steps : List (Step σ),
      (e.drive s steps).encoder.Sound ∧ ∃ layout, (e.drive s steps).encoder.Coherent layout) ∧
    ∀ actions : List (Action σ),
      let run := e.run s actions
      run.encoder.Sound ∧
        ∀ next changed, run.encoder.reconfigure next = .ok changed → ∀ steps : List (Step σ),
          let final := (changed.drive run.state steps).encoder
          final.Sound ∧ ∃ layout, final.Coherent layout := by
  obtain ⟨layout, hcoherent⟩ := coherent_of_ofConfig he
  refine ⟨fun steps => hcoherent.sound_drive s steps, fun actions => ⟨?_, ?_⟩⟩
  · exact sound_run (Config.validate_of_layout_ok hcoherent.config_layout) s actions
  · intro next changed hr steps
    obtain ⟨layout', hcoherent'⟩ := coherent_of_reconfigure hr
    exact hcoherent'.sound_drive _ steps

/-- A mono encoder whose mid channel a caller has put on short frames: it is out of step with the
    configuration, 20 ms at 16 kHz, until it is configured for that again. -/
theorem sound_and_coherent_of_odd_layout :
    let e : Encoder := ⟨{}, .fresh .full, .fresh .full⟩
    let short : Layout := ⟨2, 10, 12, 40, by decide, by decide, by decide, by decide⟩
    let stages : Stages Unit :=
      ⟨fun s _ memory record => ⟨s, memory, record, .done⟩, fun s _ memory _ => ⟨s, memory, .done⟩⟩
    let run := e.run () [.onChannel 0 (.relayout short), .encode stages]
    let changed : Encoder := { e with mid := { e.mid with frames := 1 } }
    ofConfig {} = .ok e ∧ run.encoder.mid.layout = short ∧
      run.encoder.config.layout = .ok .full ∧ run.encoder.reconfigure {} = .ok changed ∧
      (e.drive () [.encode stages]).encoder.Sound ∧
      (∃ layout, (e.drive () [.encode stages]).encoder.Coherent layout) ∧
      run.encoder.Sound ∧ (changed.drive run.state []).encoder.Sound ∧
      ∃ layout, (changed.drive run.state []).encoder.Coherent layout := by
  intro e short stages run changed
  have he : ofConfig {} = .ok e := rfl
  have hconfig : run.encoder.config = {} := rfl
  have hlayout : run.encoder.config.layout = .ok .full := by rw [hconfig]; rfl
  have hr : run.encoder.reconfigure {} = .ok changed := rfl
  obtain ⟨hsteps, hactions⟩ := sound_and_coherent he ()
  obtain ⟨hsound, hcoherent⟩ := hsteps [.encode stages]
  obtain ⟨hrun, hlater⟩ := hactions [.onChannel 0 (.relayout short), .encode stages]
  exact ⟨he, rfl, hlayout, hr, hsound, hcoherent, hrun, hlater {} changed hr []⟩

end Encoder

end SpeechFrame
