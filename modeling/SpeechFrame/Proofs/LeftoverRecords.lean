import SpeechFrame.Proofs.Steps
import SpeechFrame.Reconfiguration

set_option autoImplicit false

/-! # What the record of an earlier frame can do to later ones

Nothing. Between frames a channel holds the record of its last frame, through changes of layout and
failed frames too, but it is cleared before a stage gets to see it. Two channels that agree on
everything else (`Channel.SameButRecord`) therefore encode a frame alike and are equal afterwards,
and two encoders of such channels answer every session alike (`Encoder.SameButRecords`). As long as
a channel is neither analysed nor cleared the difference stays where it is, and then it is gone for
good (`Encoder.Renews`). -/

namespace SpeechFrame

variable {σ : Type}

/-- Two channels that differ in their records, if at all. -/
structure Channel.SameButRecord (c₁ c₂ : Channel) : Prop where
  layout_eq : c₁.layout = c₂.layout
  memory_eq : c₁.memory = c₂.memory
  frames_eq : c₁.frames = c₂.frames

/-- Two encoders that differ in the records of their channels, if at all. -/
structure Encoder.SameButRecords (e₁ e₂ : Encoder) : Prop where
  config_eq : e₁.config = e₂.config
  mid : e₁.mid.SameButRecord e₂.mid
  side : e₁.side.SameButRecord e₂.side

/-! ## One channel -/

namespace Channel

variable {c₁ c₂ : Channel}

theorem SameButRecord.refl (c : Channel) : c.SameButRecord c := ⟨rfl, rfl, rfl⟩

/-- A frame does not depend on the record that it finds, and neither does what it leaves. -/
theorem SameButRecord.encode_eq (h : c₁.SameButRecord c₂) (index : Nat) (stages : Stages σ)
    (s : σ) : c₁.encode index stages s = c₂.encode index stages s := by
  obtain ⟨layout, record₁, memory, frames⟩ := c₁
  obtain ⟨_, record₂, _, _⟩ := c₂
  obtain ⟨rfl, rfl, rfl⟩ := h
  simp only [encode, ControlRecord.clear_eq_zero, nextFrame, countFrame]

theorem SameButRecord.calls_eq (h : c₁.SameButRecord c₂) (index : Nat) (stages : Stages σ)
    (s : σ) : c₁.calls index stages s = c₂.calls index stages s := by
  rw [calls, calls, h.encode_eq]

theorem SameButRecord.restart_eq (c₁ c₂ : Channel) (layout : Layout) :
    c₁.restart layout = c₂.restart layout := by
  rw [restart_eq_fresh, restart_eq_fresh]

theorem SameButRecord.relayout (h : c₁.SameButRecord c₂) (layout : Layout) :
    (c₁.relayout layout).SameButRecord (c₂.relayout layout) :=
  ⟨rfl, h.memory_eq, h.frames_eq⟩

end Channel

namespace Encoder

variable {e₁ e₂ : Encoder}

/-! ## One step -/

/-- In one step analysis is called for the channel of a number, or the channel is cleared. -/
def StepRenews (e : Encoder) (s : σ) (step : Step σ) (index : Nat) : Prop :=
  (∃ call ∈ (e.act s step.action).calls, call.stage = .analyze ∧ call.info.channel = index) ∨
    ∃ config, step.request? = some config ∧ config.validate = .ok () ∧
      e.config.Clears config index

theorem stepRenews_reconfigure_iff (e : Encoder) (s : σ) (config : Config) (index : Nat) :
    e.StepRenews s (.reconfigure config) index ↔
      config.validate = .ok () ∧ e.config.Clears config index := by
  have hcalls : (e.act s (.reconfigure config)).calls = [] := by
    cases hr : e.reconfigure config with
    | error error => rw [act_reconfigure_of_error hr]
    | ok changed => rw [act_reconfigure_of_ok hr]
  simp [StepRenews, Step.action, Step.request?, hcalls]

theorem stepRenews_encode_iff (e : Encoder) (s : σ) (stages : Stages σ) (index : Nat) :
    e.StepRenews s (.encode stages) index ↔
      ∃ call ∈ e.calls stages s, call.stage = .analyze ∧ call.info.channel = index := by
  simp [StepRenews, Step.action, Step.request?, act_encode]

namespace SameButRecords

theorem adapt (h : e₁.SameButRecords e₂) (config : Config) (layout : Layout) (index : Nat)
    {c₁ c₂ : Channel} (hc : c₁.SameButRecord c₂) :
    (e₁.adapt config layout index c₁).SameButRecord (e₂.adapt config layout index c₂) := by
  rw [adapt_congr h.config_eq]
  unfold Encoder.adapt
  split
  · rw [Channel.SameButRecord.restart_eq c₁ c₂]
    exact .refl _
  · exact hc.relayout layout

theorem map_adapt_eq (h : e₁.SameButRecords e₂) (config : Config) (layout : Layout) (index : Nat)
    (hc : e₁.held index = e₂.held index ∨ e₁.config.Clears config index) :
    (e₁.held index).map (e₁.adapt config layout index) =
      (e₂.held index).map (e₂.adapt config layout index) := by
  rcases hc with heq | hclears
  · rw [heq, adapt_congr h.config_eq]
  · have hclears₁ := (e₁.clears_iff config index).2 hclears
    have hclears₂ := (e₂.clears_iff config index).2 (h.config_eq ▸ hclears)
    rw [map_adapt_of_clears hclears₁, map_adapt_of_clears hclears₂]

theorem reconfigure (h : e₁.SameButRecords e₂) {config : Config} {layout : Layout}
    (hlayout : config.layout = .ok layout) {changed₁ changed₂ : Encoder}
    (hr₁ : e₁.reconfigure config = .ok changed₁) (hr₂ : e₂.reconfigure config = .ok changed₂) :
    changed₁.SameButRecords changed₂ ∧
      ∀ index, e₁.held index = e₂.held index ∨ e₁.config.Clears config index →
        changed₁.held index = changed₂.held index := by
  refine ⟨?_, fun index hc => ?_⟩
  · rw [reconfigure_of_ok hlayout] at hr₁ hr₂
    cases hr₁
    cases hr₂
    exact ⟨rfl, h.adapt config layout 0 h.mid, h.adapt config layout 1 h.side⟩
  · rw [held_of_reconfigure hlayout hr₁, held_of_reconfigure hlayout hr₂,
      h.map_adapt_eq config layout index hc]

end SameButRecords

/-- A frame that is the same on two encoders: the same verdict, calls and state of the stages. A
    channel that the stages are called for is equal afterwards, and any other is as it was. -/
structure SameFrame (e₁ e₂ : Encoder) (stages : Stages σ) (s : σ) : Prop where
  verdict_eq : (e₁.encode stages s).verdict = (e₂.encode stages s).verdict
  state_eq : (e₁.encode stages s).state = (e₂.encode stages s).state
  calls_eq : e₁.calls stages s = e₂.calls stages s
  after : (e₁.encode stages s).after.SameButRecords (e₂.encode stages s).after
  held_eq : ∀ index, (e₁.held index = e₂.held index ∨
      ∃ call ∈ e₁.calls stages s, call.info.channel = index) →
    (e₁.encode stages s).after.held index = (e₂.encode stages s).after.held index

namespace SameButRecords

variable {stages : Stages σ} {s : σ}

theorem sameFrame_of_no_turn (h : e₁.SameButRecords e₂)
    (hnone : ¬ (e₁.config.channels = 1 ∨ e₁.config.channels = 2)) : SameFrame e₁ e₂ stages s := by
  have hnone' : ¬ (e₂.config.channels = 1 ∨ e₂.config.channels = 2) := h.config_eq ▸ hnone
  -- a frame that does not begin ends in the same way on both, since it is the configuration's doing
  let verdict : Verdict := if e₁.config.channels = 0 then .done
    else .halted (.outOfExtent e₁.config.channels maxChannels)
  have hencode : e₁.encode stages s = ⟨e₁, s, verdict, []⟩ := encode_of_no_turn hnone
  have hencode' : e₂.encode stages s = ⟨e₂, s, verdict, []⟩ := by
    rw [encode_of_no_turn hnone', ← h.config_eq]
  have hcalls : e₁.calls stages s = [] := calls_of_no_turn hnone
  refine ⟨by rw [hencode, hencode'], by rw [hencode, hencode'], ?_, ?_, ?_⟩
  · rw [hcalls, calls_of_no_turn hnone']
  · rw [hencode, hencode']
    exact h
  · rw [hencode, hencode', hcalls]
    rintro index (heq | ⟨call, hcall, -⟩)
    · exact heq
    · exact absurd hcall List.not_mem_nil

theorem sameFrame_of_mid_only (h : e₁.SameButRecords e₂)
    (hchannels : e₁.config.channels = 1 ∨ e₁.config.channels = 2)
    (hend : e₁.config.channels = 1 ∨ (e₁.mid.encode 0 stages s).verdict ≠ .done) :
    SameFrame e₁ e₂ stages s := by
  have hchannels' : e₂.config.channels = 1 ∨ e₂.config.channels = 2 := h.config_eq ▸ hchannels
  have hend' : e₂.config.channels = 1 ∨ (e₂.mid.encode 0 stages s).verdict ≠ .done := by
    rw [← h.config_eq, ← h.mid.encode_eq]
    exact hend
  have hencode := encode_of_mid_only hchannels hend
  have hencode' := encode_of_mid_only hchannels' hend'
  have hcalls := calls_of_mid_only hchannels hend
  rw [← h.mid.encode_eq] at hencode'
  refine ⟨by rw [hencode, hencode'], by rw [hencode, hencode'], ?_, ?_, ?_⟩
  · rw [hcalls, calls_of_mid_only hchannels' hend', h.mid.calls_eq]
  · rw [hencode, hencode']
    exact ⟨h.config_eq, .refl _, h.side⟩
  · rw [hencode, hencode', hcalls]
    rintro index (heq | ⟨call, hcall, rfl⟩)
    · match index with
      | 0 => rfl
      | 1 => exact heq
      | _ + 2 => rfl
    -- nothing but the mid channel has been called for
    · rw [Channel.channel_of_mem_calls _ 0 stages s call hcall]
      rfl

theorem sameFrame_of_mid_done (h : e₁.SameButRecords e₂) (hstereo : e₁.config.channels = 2)
    (hdone : (e₁.mid.encode 0 stages s).verdict = .done) : SameFrame e₁ e₂ stages s := by
  have hstereo' : e₂.config.channels = 2 := h.config_eq ▸ hstereo
  have hdone' : (e₂.mid.encode 0 stages s).verdict = .done := by
    rw [← h.mid.encode_eq]
    exact hdone
  have hencode := encode_of_mid_done hstereo hdone
  have hencode' := encode_of_mid_done hstereo' hdone'
  simp only [← h.mid.encode_eq, ← h.side.encode_eq] at hencode hencode'
  refine ⟨by rw [hencode, hencode'], by rw [hencode, hencode'], ?_, ?_, ?_⟩
  · rw [calls_of_mid_done hstereo hdone, calls_of_mid_done hstereo' hdone', h.mid.calls_eq,
      h.mid.encode_eq, h.side.calls_eq]
  · rw [hencode, hencode']
    exact ⟨h.config_eq, .refl _, .refl _⟩
  · rw [hencode, hencode']
    intro index _
    match index with
    | 0 => rfl
    | 1 => rfl
    | _ + 2 => rfl

theorem sameFrame (h : e₁.SameButRecords e₂) (stages : Stages σ) (s : σ) :
    SameFrame e₁ e₂ stages s := by
  by_cases hchannels : e₁.config.channels = 1 ∨ e₁.config.channels = 2
  · rcases mid_only_or_done hchannels stages s with hend | ⟨hstereo, hdone⟩
    · exact h.sameFrame_of_mid_only hchannels hend
    · exact h.sameFrame_of_mid_done hstereo hdone
  · exact h.sameFrame_of_no_turn hchannels

/-- A step is answered alike. A channel that it renews is equal afterwards, and one that was equal
    before stays so. -/
theorem act (h : e₁.SameButRecords e₂) (s : σ) (step : Step σ) :
    let r₁ := e₁.act s step.action
    let r₂ := e₂.act s step.action
    r₁.answer = r₂.answer ∧ r₁.calls = r₂.calls ∧ r₁.state = r₂.state ∧
      r₁.after.SameButRecords r₂.after ∧
      ∀ index, (e₁.held index = e₂.held index ∨ e₁.StepRenews s step index) →
        r₁.after.held index = r₂.after.held index := by
  cases step with
  | reconfigure config =>
    simp only [stepRenews_reconfigure_iff]
    cases hlayout : config.layout with
    | error error =>
      simp only [act_refused hlayout, true_and]
      refine ⟨h, ?_⟩
      rintro index (heq | ⟨hvalid, -⟩)
      · exact heq
      -- a refused configuration is not a valid one, so nothing is cleared
      · obtain ⟨layout, hok⟩ := Config.exists_layout_of_validate_ok hvalid
        rw [hlayout] at hok
        cases hok
    | ok layout =>
      obtain ⟨hafter, hheld⟩ :=
        h.reconfigure hlayout (reconfigure_of_ok hlayout e₁) (reconfigure_of_ok hlayout e₂)
      simp only [act_accepted hlayout, true_and]
      exact ⟨hafter, fun index hc => hheld index (hc.imp id And.right)⟩
  | encode stages =>
    have hframe := h.sameFrame stages s
    simp only [stepRenews_encode_iff, Step.action, act_encode]
    refine ⟨congrArg Answer.ended hframe.verdict_eq, hframe.calls_eq, hframe.state_eq,
      hframe.after, ?_⟩
    rintro index (heq | ⟨call, hcall, -, hindex⟩)
    · exact hframe.held_eq index (.inl heq)
    · exact hframe.held_eq index (.inr ⟨call, hcall, hindex⟩)

end SameButRecords

/-! ## Whole sessions -/

/-- Some time in a session analysis is called for the channel of a number, or the channel is
    cleared by a change of configuration. -/
def Renews (e : Encoder) (s : σ) (steps : List (Step σ)) (index : Nat) : Prop :=
  (∃ call ∈ (e.drive s steps).calls, call.stage = .analyze ∧ call.info.channel = index) ∨
    e.config.Clearing (steps.filterMap Step.request?) index

theorem not_renews_nil (e : Encoder) (s : σ) (index : Nat) : ¬ e.Renews s [] index := by
  rintro (⟨call, hcall, -⟩ | hclearing)
  · exact absurd hcall List.not_mem_nil
  · exact Config.not_clearing_nil e.config index hclearing

theorem Renews.cases {e : Encoder} {s : σ} {step : Step σ} {rest : List (Step σ)} {index : Nat}
    (h : e.Renews s (step :: rest) index) :
    e.StepRenews s step index ∨
      (e.act s step.action).after.Renews (e.act s step.action).state rest index := by
  rcases h with ⟨call, hcall, hanalyze⟩ | hclearing
  · rw [drive_cons, List.mem_append] at hcall
    rcases hcall with hcall | hcall
    · exact .inl (.inl ⟨call, hcall, hanalyze⟩)
    · exact .inr (.inl ⟨call, hcall, hanalyze⟩)
  · cases step with
    | reconfigure config =>
      rw [stepRenews_reconfigure_iff]
      cases hvalid : config.validate with
      | error error =>
        rw [act_refused (Config.layout_of_validate_error hvalid)]
        exact .inr (.inr ((Config.clearing_cons_of_error hvalid _ _ _).1 hclearing))
      | ok =>
        obtain ⟨layout, hlayout⟩ := Config.exists_layout_of_validate_ok hvalid
        rw [act_accepted hlayout]
        rcases (Config.clearing_cons_of_ok hvalid _ _ _).1 hclearing with hclears | hlater
        · exact .inl ⟨rfl, hclears⟩
        · exact .inr (.inr hlater)
    | encode stages =>
      refine .inr (.inr ?_)
      rw [Step.action, act_encode, encode_config]
      exact hclearing

/-- **Records left over from earlier frames never matter.** Two encoders that agree on everything
    but the records of their channels answer every session of configurations and frames alike, with
    the same calls of the stages. A channel for which analysis has been called once, or that has
    been cleared once, is the same in both from then on, its record included. -/
theorem drive_of_sameButRecords {e₁ e₂ : Encoder} (h : e₁.SameButRecords e₂) (s : σ)
    (steps : List (Step σ)) :
    let run₁ := e₁.drive s steps
    let run₂ := e₂.drive s steps
    run₁.answers = run₂.answers ∧ run₁.calls = run₂.calls ∧ run₁.state = run₂.state ∧
      run₁.encoder.SameButRecords run₂.encoder ∧
      ∀ index, (e₁.held index = e₂.held index ∨ e₁.Renews s steps index) →
        run₁.encoder.held index = run₂.encoder.held index := by
  induction steps generalizing e₁ e₂ s with
  | nil =>
    refine ⟨rfl, rfl, rfl, h, ?_⟩
    rintro index (heq | hrenews)
    · exact heq
    · exact absurd hrenews (not_renews_nil e₁ s index)
  | cons step rest ih =>
    obtain ⟨hanswer, hcalls, hstate, hafter, hheld⟩ := h.act s step
    obtain ⟨hanswers', hcalls', hstate', hafter', hheld'⟩ := ih hafter (e₁.act s step.action).state
    simp only [drive_cons, ← hstate]
    refine ⟨by rw [hanswer, hanswers'], by rw [hcalls, hcalls'], hstate', hafter', ?_⟩
    rintro index (heq | hrenews)
    · exact hheld' index (.inl (hheld index (.inl heq)))
    · rcases hrenews.cases with hnow | hlater
      · exact hheld' index (.inl (hheld index (.inr hnow)))
      · exact hheld' index (.inr hlater)

/-- Used and clean records in a stereo session, in which analysis of the mid channel fails and the
    layout changes after that: the mid channel is the same in both, the side channel is not yet. -/
theorem drive_of_used_records :
    let clean : Encoder := ⟨{ channels := 2 }, .fresh .full, .fresh .full⟩
    let worn : Channel := { Channel.fresh .full with record := { lambda := 7 } }
    let used : Encoder := { clean with mid := worn, side := worn }
    let failing : Stages Unit :=
      ⟨fun s _ _ record => ⟨s, ⟨33⟩, { record with lambda := 5 }, .failed .internal⟩,
        fun s _ memory _ => ⟨s, memory, .done⟩⟩
    let session : List (Step Unit) :=
      [.encode failing, .reconfigure { channels := 2, packetMs := 10 }]
    let run₁ := clean.drive () session
    let run₂ := used.drive () session
    clean.SameButRecords used ∧ clean.mid ≠ used.mid ∧
      clean.Renews () session 0 ∧ run₁.encoder.side ≠ run₂.encoder.side ∧
      run₁.answers = run₂.answers ∧ run₁.calls = run₂.calls ∧ run₁.state = run₂.state ∧
      run₁.encoder.SameButRecords run₂.encoder ∧
      ∀ index, (clean.held index = used.held index ∨ clean.Renews () session index) →
        run₁.encoder.held index = run₂.encoder.held index := by
  intro clean worn used failing session run₁ run₂
  have hsame : clean.SameButRecords used := ⟨rfl, ⟨rfl, rfl, rfl⟩, ⟨rfl, rfl, rfl⟩⟩
  have hmid : clean.mid ≠ used.mid :=
    fun h => absurd (congrArg (·.record.lambda) h) (by decide)
  have hside : run₁.encoder.side ≠ run₂.encoder.side :=
    fun h => absurd (congrArg (·.record.lambda) h) (by decide)
  have hcalls : run₁.calls = [clean.mid.opening 0] := rfl
  have hrenews : clean.Renews () session 0 :=
    .inl ⟨clean.mid.opening 0, by rw [hcalls]; exact List.mem_singleton_self _, rfl, rfl⟩
  exact ⟨hsame, hmid, hrenews, hside, drive_of_sameButRecords hsame () session⟩

end Encoder

end SpeechFrame
