import SpeechFrame.History
import SpeechFrame.Proofs.Steps

set_option autoImplicit false

/-! # What the frame counters count

A channel counts the frames that have ended well since it was last cleared. Its counter is kept up
step by step, while `Mark.doneSinceCleared` looks back over a whole history, so the counter is first
followed along the history (`Mark.tally`), and the two are then shown to agree.

The side channel never gets ahead of the mid channel. It only has its turn when the mid channel has
just counted a frame, and nothing clears the mid channel without clearing the side channel too. -/

namespace SpeechFrame

variable {σ : Type}

/-! ## Histories -/

namespace Mark

/-- A counter after one more thing has happened. -/
def tally (count : Nat) : Mark → Nat
  | cleared => 0
  | ended verdict => if verdict = .done then count + 1 else count

/-- Latest first, the frames up to the last clearing are what a counter has come to. -/
theorem foldr_tally (latest : List Mark) :
    latest.foldr (fun mark count => tally count mark) 0 =
      (latest.takeWhile (· ≠ .cleared)).count (.ended .done) := by
  induction latest with
  | nil => rfl
  | cons mark earlier ih =>
    rw [List.foldr_cons, ih]
    cases mark with
    | cleared => simp [tally]
    | ended verdict =>
      by_cases hdone : verdict = .done
      · simp [tally, hdone]
      · simp [tally, hdone]

theorem foldl_tally (history : List Mark) : history.foldl tally 0 = doneSinceCleared history := by
  rw [doneSinceCleared, ← foldr_tally, List.foldr_reverse]

theorem doneSinceCleared_le_count (history : List Mark) :
    doneSinceCleared history ≤ history.count (.ended .done) := by
  rw [doneSinceCleared, ← List.count_reverse (l := history)]
  exact (List.takeWhile_sublist _).count_le _

end Mark

/-! ## Turns -/

theorem Channel.frames_encode (c : Channel) (index : Nat) (stages : Stages σ) (s : σ) :
    (c.encode index stages s).after.frames =
      if (c.encode index stages s).verdict = .done then c.frames + 1 else c.frames :=
  (c.encode_course index stages s).frames_eq

namespace Encoder

variable {e : Encoder} {stages : Stages σ} {s : σ} {layout : Layout}

theorem turn_mid (hchannels : e.config.channels = 1 ∨ e.config.channels = 2) :
    e.turn stages s 0 = some (e.mid.encode 0 stages s) := by
  have hmid := channel_of_active (Config.channels_le hchannels) (show 0 < _ by omega)
  simp only [turn, List.range_zero, List.foldl_nil, hmid, held]

theorem turn_side_of_mid_only (hchannels : e.config.channels = 1 ∨ e.config.channels = 2)
    (hend : e.config.channels = 1 ∨ (e.mid.encode 0 stages s).verdict ≠ .done) :
    e.turn stages s 1 = none := by
  simp only [turn, List.range_one, List.foldl_cons, List.foldl_nil, encodeOn_mid]
  split
  · next c hdone hside =>
    rcases hend with hmono | hstop
    · have hnone : channel { e with mid := (e.mid.encode 0 stages s).after } 1 = .ok none :=
        channel_of_inactive (Config.channels_le hchannels) (Nat.le_of_eq hmono)
      cases hside.symm.trans hnone
    · exact absurd hdone hstop
  · rfl

theorem turn_side_of_mid_done (hstereo : e.config.channels = 2)
    (hdone : (e.mid.encode 0 stages s).verdict = .done) :
    e.turn stages s 1 = some (e.side.encode 1 stages (e.mid.encode 0 stages s).state) := by
  have hactive : 1 < e.config.channels := by omega
  have hside : channel { e with mid := (e.mid.encode 0 stages s).after } 1 = .ok (some e.side) :=
    channel_of_active (Config.channels_le (.inr hstereo)) hactive
  simp only [turn, List.range_one, List.foldl_cons, List.foldl_nil, encodeOn_mid, hdone, hside]

/-- A frame changes a channel by the channel's own turn, and if there is none, not at all. -/
theorem turn_cases (hchannels : e.config.channels = 1 ∨ e.config.channels = 2) (stages : Stages σ)
    (s : σ) {index : Nat} {c : Channel} (hc : e.held index = some c) :
    (e.turn stages s index = none ∧ (e.encode stages s).after.held index = some c) ∨
      ∃ s', e.turn stages s index = some (c.encode index stages s') ∧
        (e.encode stages s).after.held index = some (c.encode index stages s').after := by
  match index, hc with
  | 0, rfl =>
    refine .inr ⟨s, turn_mid hchannels, ?_⟩
    rcases mid_only_or_done hchannels stages s with hend | ⟨hstereo, hdone⟩
    · rw [encode_of_mid_only hchannels hend]
      rfl
    · rw [encode_of_mid_done hstereo hdone]
      rfl
  | 1, rfl =>
    rcases mid_only_or_done hchannels stages s with hend | ⟨hstereo, hdone⟩
    · refine .inl ⟨turn_side_of_mid_only hchannels hend, ?_⟩
      rw [encode_of_mid_only hchannels hend]
      rfl
    · refine .inr ⟨_, turn_side_of_mid_done hstereo hdone, ?_⟩
      rw [encode_of_mid_done hstereo hdone]
      rfl

/-! ## Counters through sessions -/

/-- One step: the counter of a channel goes with what the step does to the channel. -/
theorem frames_act (hchannels : e.config.channels = 1 ∨ e.config.channels = 2) (s : σ)
    (step : Step σ) {index : Nat} {c : Channel} (hc : e.held index = some c) :
    ∃ c', (e.act s step.action).after.held index = some c' ∧
      c'.frames = (e.marks s index step).foldl Mark.tally c.frames := by
  cases step with
  | reconfigure config =>
    cases hvalid : config.validate with
    | error error =>
      rw [act_refused (Config.layout_of_validate_error hvalid)]
      exact ⟨c, hc, by simp [marks, Config.isSupported_of_error hvalid]⟩
    | ok =>
      obtain ⟨layout, hlayout⟩ := Config.exists_layout_of_validate_ok hvalid
      rw [act_accepted hlayout, held_of_reconfigure hlayout (reconfigure_of_ok hlayout e), hc]
      refine ⟨_, rfl, ?_⟩
      by_cases hclears : e.config.Clears config index
      · rw [adapt_of_clears ((e.clears_iff config index).2 hclears)]
        simp [marks, Config.isSupported_of_ok hvalid, hclears, Mark.tally, Channel.fresh]
      · rw [adapt_of_not_clears (mt (e.clears_iff config index).1 hclears)]
        simp [marks, hclears]
  | encode stages =>
    rw [Step.action, act_encode]
    rcases turn_cases hchannels stages s hc with ⟨hturn, hheld⟩ | ⟨s', hturn, hheld⟩
    · exact ⟨c, hheld, by simp [marks, hturn]⟩
    · refine ⟨_, hheld, ?_⟩
      rw [Channel.frames_encode]
      simp [marks, hturn, Mark.tally]

theorem Coherent.frames_drive (h : e.Coherent layout) (s : σ) (steps : List (Step σ))
    {index : Nat} {c : Channel} (hc : e.held index = some c) :
    ∃ c', (e.drive s steps).encoder.held index = some c' ∧
      c'.frames = (e.history s index steps).foldl Mark.tally c.frames := by
  induction steps generalizing e s layout c with
  | nil => exact ⟨c, hc, rfl⟩
  | cons step rest ih =>
    obtain ⟨c₁, hc₁, hframes₁⟩ := frames_act h.channels_eq s step hc
    obtain ⟨_, h₁⟩ := h.step s step
    obtain ⟨c', hc', hframes⟩ := ih h₁ (e.act s step.action).state hc₁
    refine ⟨c', hc', ?_⟩
    rw [hframes, hframes₁, history, List.foldl_append]

theorem count_marks_le (e : Encoder) (s : σ) (index : Nat) (step : Step σ) :
    (e.marks s index step).count (.ended .done) ≤ if step.isFrame then 1 else 0 := by
  cases step with
  | reconfigure config =>
    by_cases hcleared : config.isSupported ∧ e.config.Clears config index
    · simp [marks, hcleared]
    · simp [marks, if_neg hcleared]
  | encode stages =>
    cases hturn : e.turn stages s index with
    | none => simp [marks, hturn]
    | some run =>
      simp only [marks, hturn, Option.toList_some, List.map_cons, List.map_nil]
      exact List.count_le_length

/-- In each frame of a session a channel has one turn at most. -/
theorem count_history_le (e : Encoder) (s : σ) (index : Nat) (steps : List (Step σ)) :
    (e.history s index steps).count (.ended .done) ≤ steps.countP Step.isFrame := by
  induction steps generalizing e s with
  | nil => exact Nat.le_refl 0
  | cons step rest ih =>
    have hstep := e.count_marks_le s index step
    have hrest := ih (e.act s step.action).after (e.act s step.action).state
    rw [history, List.count_append, List.countP_cons]
    omega

/-! ## Mid and side -/

theorem side_le_mid_reconfigure (hchannels : e.config.channels = 1 ∨ e.config.channels = 2)
    (h : e.side.frames ≤ e.mid.frames) (config : Config) (layout : Layout) :
    (e.adapt config layout 1 e.side).frames ≤ (e.adapt config layout 0 e.mid).frames := by
  by_cases hmid : e.clears config 0 = true
  -- the mid channel is always active, so only a change of rate clears it, and that clears both
  · have hrate : config.rateKHz ≠ e.config.rateKHz := by
      rcases (e.clears_iff config 0).1 hmid with hrate | ⟨hinactive, -⟩
      · exact hrate
      · omega
    rw [adapt_of_clears ((e.clears_iff config 1).2 (.inl hrate))]
    exact Nat.zero_le _
  · rw [adapt_of_not_clears hmid]
    by_cases hside : e.clears config 1 = true
    · rw [adapt_of_clears hside]
      exact Nat.zero_le _
    · rw [adapt_of_not_clears hside]
      exact h

theorem side_le_mid_encode (hchannels : e.config.channels = 1 ∨ e.config.channels = 2)
    (h : e.side.frames ≤ e.mid.frames) (stages : Stages σ) (s : σ) :
    (e.encode stages s).after.side.frames ≤ (e.encode stages s).after.mid.frames := by
  have hmid := e.mid.frames_encode 0 stages s
  rcases mid_only_or_done hchannels stages s with hend | ⟨hstereo, hdone⟩
  · rw [encode_of_mid_only hchannels hend, hmid]
    split
    · exact Nat.le_succ_of_le h
    · exact h
  · have hside := e.side.frames_encode 1 stages (e.mid.encode 0 stages s).state
    rw [if_pos hdone] at hmid
    rw [encode_of_mid_done hstereo hdone, hmid, hside]
    split
    · exact Nat.succ_le_succ h
    · exact Nat.le_succ_of_le h

theorem side_le_mid_act (hchannels : e.config.channels = 1 ∨ e.config.channels = 2)
    (h : e.side.frames ≤ e.mid.frames) (s : σ) (step : Step σ) :
    (e.act s step.action).after.side.frames ≤ (e.act s step.action).after.mid.frames := by
  cases step with
  | reconfigure config =>
    cases hlayout : config.layout with
    | error error =>
      rw [act_refused hlayout]
      exact h
    | ok layout =>
      rw [act_accepted hlayout]
      exact side_le_mid_reconfigure hchannels h config layout
  | encode stages =>
    rw [Step.action, act_encode]
    exact side_le_mid_encode hchannels h stages s

theorem Coherent.side_le_mid_drive (h : e.Coherent layout) (hle : e.side.frames ≤ e.mid.frames)
    (s : σ) (steps : List (Step σ)) :
    (e.drive s steps).encoder.side.frames ≤ (e.drive s steps).encoder.mid.frames := by
  refine (drive_induction
    (P := fun e => (∃ layout, e.Coherent layout) ∧ e.side.frames ≤ e.mid.frames)
    ?_ ⟨⟨layout, h⟩, hle⟩ s steps).2
  rintro e s step ⟨⟨layout, h⟩, hle⟩
  exact ⟨h.step s step, side_le_mid_act h.channels_eq hle s step⟩

/-- **What the frame counters count.** After every session of configurations and frames, each
    channel's counter shows how many frames of the channel have ended well since it was last
    cleared. No counter exceeds the number of frames asked for, so it takes as many frames as a
    counter has values to exhaust one; and the side channel, active or not, is never ahead of the
    mid channel. -/
theorem frames_eq_doneSinceCleared {config : Config} (he : ofConfig config = .ok e) (s : σ)
    (steps : List (Step σ)) :
    let final := (e.drive s steps).encoder
    (∀ index c, final.held index = some c →
      c.frames = Mark.doneSinceCleared (e.history s index steps) ∧
        c.frames ≤ steps.countP Step.isFrame) ∧
    final.side.frames ≤ final.mid.frames := by
  intro final
  obtain ⟨layout, hcoherent⟩ := coherent_of_ofConfig he
  obtain ⟨layout', -, rfl⟩ := ofConfig_eq_ok he
  refine ⟨fun index c hc => ?_, hcoherent.side_le_mid_drive (Nat.le_refl 0) s steps⟩
  have hstart : ∃ c₀, held ⟨config, .fresh layout', .fresh layout'⟩ index = some c₀ ∧
      c₀.frames = 0 := by
    match index, hc with
    | 0, _ => exact ⟨_, rfl, rfl⟩
    | 1, _ => exact ⟨_, rfl, rfl⟩
  obtain ⟨c₀, hc₀, hzero⟩ := hstart
  obtain ⟨c', hc', hframes⟩ := hcoherent.frames_drive s steps hc₀
  obtain rfl : c' = c := Option.some.inj (hc'.symm.trans hc)
  rw [hzero, Mark.foldl_tally] at hframes
  refine ⟨hframes, ?_⟩
  rw [hframes]
  exact Nat.le_trans (Mark.doneSinceCleared_le_count _) (count_history_le _ s index steps)

/-- A mono frame, the side channel activated, a frame in which quantisation of the side channel
    fails, a request refused, and a frame of both channels: three frames of the mid channel count
    and one of the side channel. -/
theorem frames_of_side_activated :
    let e : Encoder := ⟨{}, .fresh .full, .fresh .full⟩
    let accepting : Stages Unit :=
      ⟨fun s _ memory record => ⟨s, memory, record, .done⟩, fun s _ memory _ => ⟨s, memory, .done⟩⟩
    let sideFailing : Stages Unit := { accepting with
      quantize := fun s info memory _ =>
        ⟨s, memory, if info.channel = 1 then .failed .internal else .done⟩ }
    let session : List (Step Unit) :=
      [.encode accepting, .reconfigure { channels := 2 }, .encode sideFailing,
        .reconfigure { rateKHz := 9 }, .encode accepting]
    let final := (e.drive () session).encoder
    ofConfig {} = .ok e ∧ (final.mid.frames = 3 ∧ final.side.frames = 1) ∧
      e.history () 1 session = [.cleared, .ended (.failed .internal), .ended .done] ∧
      (∀ index c, final.held index = some c →
        c.frames = Mark.doneSinceCleared (e.history () index session) ∧
          c.frames ≤ session.countP Step.isFrame) ∧
      final.side.frames ≤ final.mid.frames := by
  intro e accepting sideFailing session
  have he : ofConfig {} = .ok e := rfl
  have hcounts : (e.drive () session).encoder.mid.frames = 3 ∧
      (e.drive () session).encoder.side.frames = 1 := by decide
  have hhistory : e.history () 1 session = [.cleared, .ended (.failed .internal), .ended .done] := by
    decide
  exact ⟨he, hcounts, hhistory, frames_eq_doneSinceCleared he () session⟩

end Encoder

end SpeechFrame
