import SpeechFrame.LoneChannel
import SpeechFrame.Proofs.Steps

set_option autoImplicit false

/-! # A stereo encoder is two channels on their own

With stages that do not remember, the two channels of a stereo encoder have nothing to do with each
other, except that the side channel waits for the mid channel to succeed. So an encoder that stays
in stereo holds, after every session, the two channels that a mid and a side channel on their own
have become. -/

namespace SpeechFrame

variable {σ : Type}

namespace Channel

variable {stages : Stages σ}

/-- With stages that do not remember, a frame is the same whatever they have seen before. -/
theorem encode_of_memoryless (h : stages.Memoryless) (c : Channel) (index : Nat) (s s' : σ) :
    (c.encode index stages s).after = (c.encode index stages s').after ∧
      (c.encode index stages s).verdict = (c.encode index stages s').verdict := by
  have hmemory : (c.analysis index stages s).memory = (c.analysis index stages s').memory :=
    h.analyze_memory s s' _ _ _
  have hrecord : (c.analysis index stages s).record = (c.analysis index stages s').record :=
    h.analyze_record s s' _ _ _
  have hverdict : (c.analysis index stages s).verdict = (c.analysis index stages s').verdict :=
    h.analyze_verdict s s' _ _ _
  by_cases hdone : (c.analysis index stages s).verdict = .done
  · obtain ⟨-, -, hv, ha⟩ := encode_of_analysis_done rfl hdone rfl
    obtain ⟨-, -, hv', ha'⟩ := encode_of_analysis_done rfl (hverdict ▸ hdone) rfl
    have hqmemory : (c.quantization index stages s).memory =
        (c.quantization index stages s').memory := by
      simp only [quantization, hmemory, hrecord]
      exact h.quantize_memory _ _ _ _ _
    have hqverdict : (c.quantization index stages s).verdict =
        (c.quantization index stages s').verdict := by
      simp only [quantization, hmemory, hrecord]
      exact h.quantize_verdict _ _ _ _ _
    rw [ha, ha', hv, hv', hrecord, hqmemory, hqverdict]
    exact ⟨rfl, rfl⟩
  · obtain ⟨-, -, hv, ha⟩ := encode_of_analysis_stopped rfl hdone
    obtain ⟨-, -, hv', ha'⟩ := encode_of_analysis_stopped rfl (hverdict ▸ hdone)
    rw [ha, ha', hv, hv', hrecord, hmemory, hverdict]
    exact ⟨rfl, rfl⟩

theorem perform_encode (c : Channel) (s : σ) (index : Nat) (stages : Stages σ)
    (rest : List (ChannelAction σ)) :
    c.perform s (.encode index stages :: rest) =
      (c.encode index stages s).after.perform (c.encode index stages s).state rest := by
  rw [perform, act_encode]

end Channel

namespace Encoder

variable {e : Encoder} {stages : Stages σ} {s : σ}

/-- While both channels stay active, only another sampling rate clears one of them. -/
theorem adapt_eq_channelAction {next : Config} (hstereo : e.config.channels = 2)
    (hnext : next.channels = 2) (layout : Layout) (index : Nat) (c : Channel) (s : σ) :
    e.adapt next layout index c = (c.act s (e.config.channelAction next layout)).after := by
  by_cases hrate : next.rateKHz = e.config.rateKHz
  · have hkept : ¬ e.clears next index = true := by
      rw [clears_iff, hstereo, hnext]
      omega
    rw [Config.channelAction, if_pos hrate, adapt_of_not_clears hkept]
    rfl
  · have hcleared : e.clears next index = true := (e.clears_iff next index).2 (.inl hrate)
    rw [Config.channelAction, if_neg hrate, adapt, if_pos hcleared]
    rfl

/-- A frame of a stereo encoder, and frames of its channels with stages in any state. -/
theorem encode_of_memoryless (h : stages.Memoryless) (hstereo : e.config.channels = 2)
    (s s₀ s₁ : σ) :
    let run := e.encode stages s
    let mid := e.mid.encode 0 stages s₀
    let side := e.side.encode 1 stages s₁
    run.after = { e with
      mid := mid.after
      side := if mid.verdict = .done then side.after else e.side } ∧
    run.verdict = if mid.verdict = .done then side.verdict else mid.verdict := by
  intro run mid side
  obtain ⟨hafter₀, hverdict₀⟩ := Channel.encode_of_memoryless h e.mid 0 s s₀
  rcases mid_only_or_done (.inr hstereo) stages s with hend | ⟨-, hdone⟩
  · have hstop : mid.verdict ≠ .done := hverdict₀ ▸ hend.resolve_left (by omega)
    rw [if_neg hstop, if_neg hstop]
    simp only [run, encode_of_mid_only (.inr hstereo) hend]
    exact ⟨by rw [hafter₀], hverdict₀⟩
  · have hdone' : mid.verdict = .done := hverdict₀ ▸ hdone
    obtain ⟨hafter₁, hverdict₁⟩ :=
      Channel.encode_of_memoryless h e.side 1 (e.mid.encode 0 stages s).state s₁
    rw [if_pos hdone', if_pos hdone']
    simp only [run, encode_of_mid_done hstereo hdone]
    exact ⟨by rw [hafter₀, hafter₁], hverdict₁⟩

theorem drive_eq_perform (hstereo : e.config.channels = 2) {steps : List (Step σ)}
    (hsteps : ∀ step ∈ steps, step.Separable) (s s₀ s₁ : σ) :
    let final := (e.drive s steps).encoder
    final.config.channels = 2 ∧
      final.mid = (e.mid.perform s₀ (e.config.midActions steps)).1 ∧
      final.side = (e.side.perform s₁ (e.config.sideActions e.mid s₀ steps)).1 := by
  induction steps generalizing e s s₀ s₁ with
  | nil => exact ⟨hstereo, rfl, rfl⟩
  | cons step rest ih =>
    obtain ⟨hstep, hrest⟩ := List.forall_mem_cons.1 hsteps
    rw [drive_cons]
    cases step with
    | reconfigure next =>
      cases hlayout : next.layout with
      | error error =>
        rw [act_refused hlayout]
        simp only [Config.midActions, Config.sideActions, hlayout]
        exact ih hstereo hrest s s₀ s₁
      | ok layout =>
        have hnext : next.channels = 2 := hstep (Config.validate_of_layout_ok hlayout)
        rw [act_accepted hlayout, adapt_eq_channelAction hstereo hnext layout 0 e.mid s₀,
          adapt_eq_channelAction hstereo hnext layout 1 e.side s₁]
        simp only [Config.midActions, Config.sideActions, hlayout, Channel.perform]
        exact ih (e := ⟨next, _, _⟩) hnext hrest s _ _
    | encode stages =>
      obtain ⟨hafter, -⟩ := encode_of_memoryless hstep hstereo s s₀ s₁
      let mid := (e.mid.encode 0 stages s₀).after
      let side := (e.side.encode 1 stages s₁).after
      rw [Step.action, act_encode]
      simp only [hafter, Config.midActions, Config.sideActions, Channel.perform_encode]
      split
      · rw [Channel.perform_encode]
        exact ih (e := { e with mid, side }) hstereo hrest _ _ _
      · exact ih (e := { e with mid }) hstereo hrest _ _ _

/-- **A stereo encoder is two channels on their own.** After every session that keeps both channels
    active, with stages that do not remember, the mid channel is what a channel on its own becomes
    that is told every frame, and the side channel what one becomes that is told those frames in
    which the mid channel has succeeded. Both are told to start again when the sampling rate changes
    and to change their layout with any other configuration. The next frame, and so every frame,
    ends as the mid channel's does unless that succeeds, and then as the side channel's does. -/
theorem stereo_eq_lone_channels {config : Config} (he : ofConfig config = .ok e)
    (hstereo : config.channels = 2) {steps : List (Step σ)}
    (hsteps : ∀ step ∈ steps, step.Separable) (s s₀ s₁ : σ) :
    ∃ layout, config.layout = .ok layout ∧
      let run := e.drive s steps
      let lone := Channel.fresh layout
      let mid := lone.perform s₀ (config.midActions steps)
      let side := lone.perform s₁ (config.sideActions lone s₀ steps)
      run.encoder.mid = mid.1 ∧ run.encoder.side = side.1 ∧
        ∀ stages : Stages σ, stages.Memoryless →
          (run.encoder.encode stages run.state).verdict =
            if (mid.1.encode 0 stages mid.2).verdict = .done then
              (side.1.encode 1 stages side.2).verdict
            else (mid.1.encode 0 stages mid.2).verdict := by
  obtain ⟨layout, hlayout, rfl⟩ := ofConfig_eq_ok he
  obtain ⟨hconfig, hmid, hside⟩ :=
    drive_eq_perform (e := ⟨config, .fresh layout, .fresh layout⟩) hstereo hsteps s s₀ s₁
  refine ⟨layout, hlayout, hmid, hside, fun stages hstages => ?_⟩
  rw [← hmid, ← hside]
  exact (encode_of_memoryless hstages hconfig _ _ _).2

/-- Stages that count their calls but do not go by the count, and fail in the second frame of the mid
    channel, which comes after a change to short packets: the side channel is not told of it. -/
theorem lone_channels_of_mid_failure :
    let config : Config := { channels := 2 }
    let e : Encoder := ⟨config, .fresh .full, .fresh .full⟩
    let stages : Stages Nat :=
      ⟨fun n info memory record => ⟨n + 1, ⟨memory.gainIndex + 1⟩, record,
          if info.channel = 0 ∧ info.number = 1 then .failed .internal else .done⟩,
        fun n _ memory _ => ⟨n + 1, memory, .done⟩⟩
    let session : List (Step Nat) :=
      [.encode stages, .reconfigure { channels := 2, packetMs := 10 }, .encode stages]
    let run := e.drive 0 session
    ofConfig config = .ok e ∧ config.channels = 2 ∧ (∀ step ∈ session, step.Separable) ∧
      (run.encoder.mid.memory.gainIndex = 12 ∧ run.encoder.side.memory.gainIndex = 11) ∧
      ∃ layout, config.layout = .ok layout ∧
        let lone := Channel.fresh layout
        let mid := lone.perform 3 (config.midActions session)
        let side := lone.perform 5 (config.sideActions lone 3 session)
        run.encoder.mid = mid.1 ∧ run.encoder.side = side.1 ∧
          ∀ stages : Stages Nat, stages.Memoryless →
            (run.encoder.encode stages run.state).verdict =
              if (mid.1.encode 0 stages mid.2).verdict = .done then
                (side.1.encode 1 stages side.2).verdict
              else (mid.1.encode 0 stages mid.2).verdict := by
  intro config e stages session run
  have he : ofConfig config = .ok e := show ofConfig { channels := 2 } = .ok e from rfl
  have hstages : stages.Memoryless :=
    ⟨fun _ _ _ _ _ => rfl, fun _ _ _ _ _ => rfl, fun _ _ _ _ _ => rfl, fun _ _ _ _ _ => rfl,
      fun _ _ _ _ _ => rfl⟩
  have hsteps : ∀ step ∈ session, step.Separable := by
    intro step hstep
    simp only [session, List.mem_cons, List.not_mem_nil, or_false] at hstep
    rcases hstep with rfl | rfl | rfl
    · exact hstages
    · exact fun _ => rfl
    · exact hstages
  exact ⟨he, rfl, hsteps, ⟨rfl, rfl⟩, stereo_eq_lone_channels he rfl hsteps 0 3 5⟩

end Encoder

end SpeechFrame
