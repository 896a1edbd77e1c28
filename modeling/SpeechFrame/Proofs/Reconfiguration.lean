import SpeechFrame.Proofs.Reachable
import SpeechFrame.Reconfiguration

set_option autoImplicit false

/-! # What a run of requests comes to

Each request looks at the encoder that the one before it has left: whether it clears a channel is a
matter of the configuration in force at its turn. `Channel.Adapted` says what has become of a
channel and is closed under going on (`Adapted.trans`), so a whole run does to a channel what a
single request does, the reasons to clear it taken together. -/

namespace SpeechFrame

/-! ## Channels -/

/-- A channel before and after changes of configuration that end in a layout: new, if there was a
    reason to clear it on the way, and the same but for its layout, if there was none. -/
structure Channel.Adapted (cleared : Prop) (layout : Layout) (c c' : Channel) : Prop where
  eq_fresh : cleared → c' = .fresh layout
  eq_of_not_cleared : ¬ cleared → c' = { c with layout }

namespace Channel.Adapted

variable {p q : Prop} {layout layout' : Layout} {c c₁ c₂ : Channel}

theorem refl (hp : ¬ p) (hlayout : c.layout = layout) : Adapted p layout c c :=
  ⟨fun h => absurd h hp, fun _ => by rw [← hlayout]⟩

theorem trans (h : Adapted p layout c c₁) (h' : Adapted q layout' c₁ c₂) :
    Adapted (p ∨ q) layout' c c₂ := by
  constructor
  · intro hcleared
    by_cases hq : q
    · exact h'.eq_fresh hq
    -- cleared at first only: a new channel keeps nothing but what a new channel has
    · rw [h'.eq_of_not_cleared hq, h.eq_fresh (hcleared.resolve_right hq)]
      rfl
  · intro hnot
    obtain ⟨hp, hq⟩ := not_or.1 hnot
    rw [h'.eq_of_not_cleared hq, h.eq_of_not_cleared hp]

theorem congr (hpq : p ↔ q) (h : Adapted p layout c c₁) : Adapted q layout c c₁ :=
  ⟨fun hq => h.eq_fresh (hpq.2 hq), fun hq => h.eq_of_not_cleared fun hp => hq (hpq.1 hp)⟩

end Channel.Adapted

namespace Encoder

variable {e : Encoder} {layout : Layout}

theorem adapted_adapt (e : Encoder) (config : Config) (layout : Layout) (index : Nat)
    (c : Channel) :
    c.Adapted (e.config.Clears config index) layout (e.adapt config layout index c) :=
  ⟨fun h => adapt_of_clears ((e.clears_iff config index).2 h) layout c,
    fun h => adapt_of_not_clears (mt (e.clears_iff config index).1 h) layout c⟩

/-! ## One request -/

/-- A request is answered by the validation of the configuration, whatever the encoder. -/
theorem reconfigure_cases (e : Encoder) (config : Config) :
    (∃ error, config.validate = .error error ∧ e.reconfigure config = .error error) ∨
      ∃ changed, config.validate = .ok () ∧ e.reconfigure config = .ok changed := by
  cases hvalid : config.validate with
  | error error =>
    exact .inl ⟨error, rfl, reconfigure_of_error (Config.layout_of_validate_error hvalid) e⟩
  | ok =>
    obtain ⟨layout, hlayout⟩ := Config.exists_layout_of_validate_ok hvalid
    exact .inr ⟨_, rfl, reconfigure_of_ok hlayout e⟩

/-- At another sampling rate nothing is left of an encoder. -/
theorem reconfigure_of_rate_ne {config : Config} (h : config.rateKHz ≠ e.config.rateKHz) :
    e.reconfigure config = ofConfig config := by
  have hclears : ∀ index, e.clears config index = true :=
    fun index => (e.clears_iff config index).2 (.inl h)
  cases hlayout : config.layout with
  | error error => rw [reconfigure_of_error hlayout, ofConfig, hlayout]; rfl
  | ok layout =>
    rw [reconfigure_of_ok hlayout, adapt_of_clears (hclears 0), adapt_of_clears (hclears 1),
      ofConfig, hlayout]
    rfl

/-! ## Runs of requests -/

theorem reconfigureAll_answers (e : Encoder) (requests : List Config) :
    (e.reconfigureAll requests).1 = requests.map Config.validate := by
  induction requests generalizing e with
  | nil => rfl
  | cons config rest ih =>
    rcases e.reconfigure_cases config with ⟨error, hvalid, hr⟩ | ⟨changed, hvalid, hr⟩
    · rw [reconfigureAll_cons_of_error hr, ih, List.map_cons, hvalid]
    · rw [reconfigureAll_cons_of_ok hr, ih, List.map_cons, hvalid]

theorem reconfigureAll_filter (e : Encoder) (requests : List Config) :
    (e.reconfigureAll (requests.filter Config.isSupported)).2 = (e.reconfigureAll requests).2 := by
  induction requests generalizing e with
  | nil => rfl
  | cons config rest ih =>
    rcases e.reconfigure_cases config with ⟨error, hvalid, hr⟩ | ⟨changed, hvalid, hr⟩
    · have hrefused : ¬ config.isSupported = true := by
        rw [Config.isSupported_of_error hvalid]
        decide
      rw [List.filter_cons_of_neg hrefused, reconfigureAll_cons_of_error hr, ih]
    · rw [List.filter_cons_of_pos (Config.isSupported_of_ok hvalid),
        reconfigureAll_cons_of_ok hr, reconfigureAll_cons_of_ok hr, ih]

theorem reconfigureAll_config (e : Encoder) (requests : List Config) :
    (e.reconfigureAll requests).2.config = e.config.inForce requests := by
  induction requests generalizing e with
  | nil => rfl
  | cons config rest ih =>
    rcases e.reconfigure_cases config with ⟨error, hvalid, hr⟩ | ⟨changed, hvalid, hr⟩
    · rw [reconfigureAll_cons_of_error hr, ih, Config.inForce_cons_of_error hvalid]
    · obtain ⟨_, -, hconfig, -⟩ := reconfigure_eq_ok hr
      rw [reconfigureAll_cons_of_ok hr, ih, hconfig, Config.inForce_cons_of_ok hvalid]

/-- What a run of requests does to each channel, active or not. -/
theorem Coherent.reconfigureAll_held (h : e.Coherent layout) (requests : List Config) :
    ∃ layout', (e.config.inForce requests).layout = .ok layout' ∧
      ∀ index c, e.held index = some c →
        ∃ c', (e.reconfigureAll requests).2.held index = some c' ∧
          c.Adapted (e.config.Clearing requests index) layout' c' := by
  -- over every coherent encoder at once: a request granted leaves another one
  induction requests generalizing e layout with
  | nil =>
    refine ⟨layout, h.config_layout, fun index c hc => ⟨c, hc, ?_⟩⟩
    exact .refl (Config.not_clearing_nil e.config index) (h.held_layout index c hc)
  | cons config rest ih =>
    rcases e.reconfigure_cases config with ⟨error, hvalid, hr⟩ | ⟨changed, hvalid, hr⟩
    · obtain ⟨layout', hlayout', hheld⟩ := ih h
      rw [reconfigureAll_cons_of_error hr, Config.inForce_cons_of_error hvalid]
      refine ⟨layout', hlayout', fun index c hc => ?_⟩
      obtain ⟨c', hc', hadapted⟩ := hheld index c hc
      exact ⟨c', hc', hadapted.congr (Config.clearing_cons_of_error hvalid _ _ _).symm⟩
    · obtain ⟨layout₁, -, hconfig, hchanged⟩ := reconfigure_eq_ok hr
      obtain ⟨_, hcoherent⟩ := coherent_of_reconfigure hr
      obtain ⟨layout', hlayout', hheld⟩ := ih hcoherent
      rw [reconfigureAll_cons_of_ok hr, Config.inForce_cons_of_ok hvalid]
      rw [hconfig] at hlayout' hheld
      refine ⟨layout', hlayout', fun index c hc => ?_⟩
      -- the first request adapts the channel, and the others adapt what has come of that
      have hc₁ : changed.held index = some (e.adapt config layout₁ index c) := by
        rw [hchanged, hc, Option.map_some]
      obtain ⟨c', hc', hadapted⟩ := hheld index _ hc₁
      have hfirst := e.adapted_adapt config layout₁ index c
      exact ⟨c', hc', (hfirst.trans hadapted).congr (Config.clearing_cons_of_ok hvalid _ _ _).symm⟩

/-- **What a run of requests comes to.** Each request is answered by the validation of its
    configuration, and those refused might as well not have been made. The last one granted is in
    force in the end. A channel, active or not, is new if some request granted has changed the
    sampling rate or activated it; otherwise it is as it was, under the layout of the configuration
    in force. And whatever state this has led to, changing the sampling rate is starting anew. -/
theorem Reachable.reconfigureAll_outcome (he : e.Reachable) (requests : List Config) :
    let final := (e.reconfigureAll requests).2
    (e.reconfigureAll requests).1 = requests.map Config.validate ∧
      (e.reconfigureAll (requests.filter Config.isSupported)).2 = final ∧
      final.config = e.config.inForce requests ∧
      (∃ layout, final.config.layout = .ok layout ∧
        ∀ index c, e.held index = some c →
          ∃ c', final.held index = some c' ∧
            c.Adapted (e.config.Clearing requests index) layout c') ∧
      ∀ config, config.rateKHz ≠ final.config.rateKHz →
        final.reconfigure config = ofConfig config := by
  intro final
  have hconfig : final.config = e.config.inForce requests := e.reconfigureAll_config requests
  obtain ⟨layout, hcoherent⟩ := he.coherent
  refine ⟨e.reconfigureAll_answers requests, e.reconfigureAll_filter requests, hconfig, ?_,
    fun config hrate => reconfigure_of_rate_ne hrate⟩
  rw [hconfig]
  exact hcoherent.reconfigureAll_held requests

/-- A mono encoder that has encoded a frame, asked for a rate that there is not, for 8 kHz and for
    16 kHz again: back where it was by its configuration, it has forgotten the frame. -/
theorem reconfigureAll_of_rate_and_back :
    let fresh : Encoder := ⟨{}, .fresh .full, .fresh .full⟩
    let stages : Stages Unit :=
      ⟨fun s _ _ record => ⟨s, ⟨42⟩, record, .done⟩, fun s _ memory _ => ⟨s, memory, .done⟩⟩
    let e := (fresh.encode stages ()).after
    let requests : List Config := [{ rateKHz := 9 }, { rateKHz := 8 }, {}]
    let final := (e.reconfigureAll requests).2
    e.Reachable ∧
      (e.mid.frames = 1 ∧ e.mid.memory.gainIndex = 42 ∧ final.mid.frames = 0 ∧
        final.mid.memory.gainIndex = 10) ∧
      (e.reconfigureAll requests).1 = requests.map Config.validate ∧
      (e.reconfigureAll (requests.filter Config.isSupported)).2 = final ∧
      final.config = e.config.inForce requests ∧
      (∃ layout, final.config.layout = .ok layout ∧
        ∀ index c, e.held index = some c →
          ∃ c', final.held index = some c' ∧
            c.Adapted (e.config.Clearing requests index) layout c') ∧
      ∀ config, config.rateKHz ≠ final.config.rateKHz →
        final.reconfigure config = ofConfig config := by
  intro fresh stages e requests final
  have he : e.Reachable := .encode (.new (show ofConfig {} = .ok fresh from rfl)) stages ()
  exact ⟨he, ⟨rfl, rfl, rfl, rfl⟩, he.reconfigureAll_outcome requests⟩

end Encoder

end SpeechFrame
