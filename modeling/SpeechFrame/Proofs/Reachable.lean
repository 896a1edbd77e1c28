import SpeechFrame.Proofs.Course

set_option autoImplicit false

/-! # Encoders that can come about

An encoder starts from a supported configuration and goes on by changes of configuration and by
frames. All the way both of its channels are laid out by the configuration in force, the inactive
one too (`Encoder.Coherent`): a change of configuration lays out both, and a frame no channel. -/

namespace SpeechFrame

/-- Encoders that come about by changes of configuration and by frames. -/
inductive Encoder.Reachable : Encoder → Prop
  | new {config : Config} {e : Encoder} (h : ofConfig config = .ok e) : Reachable e
  | reconfigure {e changed : Encoder} {config : Config} (he : Reachable e)
      (h : e.reconfigure config = .ok changed) : Reachable changed
  | encode {σ : Type} {e : Encoder} (he : Reachable e) (stages : Stages σ) (s : σ) :
      Reachable (e.encode stages s).after

/-- The configuration is supported, and both channels are laid out by it. -/
structure Encoder.Coherent (e : Encoder) (layout : Layout) : Prop where
  config_layout : e.config.layout = .ok layout
  held_layout : ∀ index c, e.held index = some c → c.layout = layout

/-! ## Frames change no layout -/

theorem Channel.Course.layout_eq {c c' : Channel} {index : Nat} {t : List Exchange} {v : Verdict}
    (h : c.Course index t v c') : c'.layout = c.layout := by
  cases h <;> rfl

theorem Encoder.Course.config_eq {e e' : Encoder} {t : List Exchange} {v : Verdict}
    (h : e.Course t v e') : e'.config = e.config := by
  cases h <;> rfl

theorem Encoder.Course.held_layout {e e' : Encoder} {t : List Exchange} {v : Verdict}
    (h : e.Course t v e') (index : Nat) :
    (e'.held index).map (·.layout) = (e.held index).map (·.layout) := by
  cases h with
  | midOnly hmid _ =>
    match index with
    | 0 => exact congrArg some hmid.layout_eq
    | 1 => rfl
    | _ + 2 => rfl
  | both hmid _ hside =>
    match index with
    | 0 => exact congrArg some hmid.layout_eq
    | 1 => exact congrArg some hside.layout_eq
    | _ + 2 => rfl

/-! ## Coherence through each step -/

namespace Encoder

variable {σ : Type} {e : Encoder} {layout : Layout}

theorem Coherent.channels_eq (h : e.Coherent layout) :
    e.config.channels = 1 ∨ e.config.channels = 2 :=
  Config.channels_eq_of_validate (Config.validate_of_layout_ok h.config_layout)

theorem ofConfig_eq_ok {config : Config} (h : ofConfig config = .ok e) :
    ∃ layout, config.layout = .ok layout ∧ e = ⟨config, .fresh layout, .fresh layout⟩ := by
  unfold ofConfig at h
  cases hlayout : config.layout with
  | error error =>
    rw [hlayout] at h
    cases h
  | ok layout =>
    rw [hlayout] at h
    cases h
    exact ⟨layout, rfl, rfl⟩

theorem coherent_of_ofConfig {config : Config} (h : ofConfig config = .ok e) :
    ∃ layout, e.Coherent layout := by
  obtain ⟨layout, hlayout, rfl⟩ := ofConfig_eq_ok h
  refine ⟨layout, hlayout, fun index c hc => ?_⟩
  match index, hc with
  | 0, rfl => rfl
  | 1, rfl => rfl

theorem adapt_layout (e : Encoder) (config : Config) (layout : Layout) (index : Nat)
    (c : Channel) : (e.adapt config layout index c).layout = layout := by
  by_cases hclears : e.clears config index = true
  · rw [adapt_of_clears hclears]
    rfl
  · rw [adapt_of_not_clears hclears]

theorem coherent_of_reconfigure {changed : Encoder} {config : Config}
    (h : e.reconfigure config = .ok changed) :
    ∃ layout, changed.Coherent layout := by
  obtain ⟨layout, hlayout, hconfig, hheld⟩ := reconfigure_eq_ok h
  refine ⟨layout, by rw [hconfig, hlayout], fun index c hc => ?_⟩
  rw [hheld, Option.map_eq_some_iff] at hc
  obtain ⟨c₀, -, rfl⟩ := hc
  exact adapt_layout e config layout index c₀

theorem Coherent.encode (h : e.Coherent layout) (stages : Stages σ) (s : σ) :
    (e.encode stages s).after.Coherent layout := by
  have hcourse := encode_course h.channels_eq stages s
  refine ⟨by rw [hcourse.config_eq, h.config_layout], fun index c hc => ?_⟩
  -- the channel of this number after the frame stems from one before it with the same layout
  have hmap := hcourse.held_layout index
  rw [hc, Option.map_some] at hmap
  obtain ⟨c₀, hc₀, hlayout⟩ := Option.map_eq_some_iff.1 hmap.symm
  rw [← hlayout]
  exact h.held_layout index c₀ hc₀

/-- Every encoder that can come about is laid out by its configuration. -/
theorem Reachable.coherent (he : e.Reachable) : ∃ layout, e.Coherent layout := by
  induction he with
  | new h => exact coherent_of_ofConfig h
  | reconfigure _ h _ => exact coherent_of_reconfigure h
  | encode _ stages s ih =>
    obtain ⟨layout, hlayout⟩ := ih
    exact ⟨layout, hlayout.encode stages s⟩

end Encoder

end SpeechFrame
