import SpeechFrame.Session

set_option autoImplicit false

/-! # Runs

A run is a whole session: the encoder and the stages as they are in the end, and everything that
was answered and called on the way. `Encoder.run` goes through a session of any actions. Often
nobody works on a channel directly and an encoder is only asked for configurations and frames; a
session of that kind is a list of steps, and `Encoder.drive` goes through it. -/

namespace SpeechFrame

variable {σ : Type}

/-- Something asked of an encoder as a whole. -/
inductive Step (σ : Type) where
  | reconfigure (config : Config)
  | encode (stages : Stages σ)

namespace Step

def action : Step σ → Action σ
  | .reconfigure config => .reconfigure config
  | .encode stages => .encode stages

/-- The configuration that a step asks for, if it asks for one. -/
def request? : Step σ → Option Config
  | .reconfigure config => some config
  | .encode _ => none

def isFrame : Step σ → Bool
  | .reconfigure _ => false
  | .encode _ => true

end Step

/-- What a session comes to. -/
structure Run (σ : Type) where
  encoder : Encoder
  state : σ
  /-- The answer to each action. -/
  answers : List Answer
  /-- The calls of stages, those of all actions together. -/
  calls : List StageCall

namespace Encoder

/-- Go through a session, action by action. -/
def run (e : Encoder) (s : σ) : List (Action σ) → Run σ
  | [] => ⟨e, s, [], []⟩
  | action :: rest =>
    let r := e.act s action
    let later := r.after.run r.state rest
    { later with answers := r.answer :: later.answers, calls := r.calls ++ later.calls }

/-- Go through a session in which nobody works on a channel directly. -/
def drive (e : Encoder) (s : σ) (steps : List (Step σ)) : Run σ :=
  e.run s (steps.map Step.action)

theorem drive_cons (e : Encoder) (s : σ) (step : Step σ) (rest : List (Step σ)) :
    e.drive s (step :: rest) =
      let r := e.act s step.action
      let later := r.after.drive r.state rest
      { later with answers := r.answer :: later.answers, calls := r.calls ++ later.calls } := rfl

/-- An invariant that every action keeps holds at the end of a session. -/
theorem run_induction {P : Encoder → Prop}
    (hact : ∀ e (s : σ) action, P e → P (e.act s action).after) {e : Encoder} (he : P e) (s : σ)
    (actions : List (Action σ)) : P (e.run s actions).encoder := by
  induction actions generalizing e s with
  | nil => exact he
  | cons action rest ih => exact ih (hact e s action he) (e.act s action).state

/-- An invariant that every step keeps holds at the end of a session of steps. -/
theorem drive_induction {P : Encoder → Prop}
    (hact : ∀ e (s : σ) (step : Step σ), P e → P (e.act s step.action).after) {e : Encoder}
    (he : P e) (s : σ) (steps : List (Step σ)) : P (e.drive s steps).encoder := by
  induction steps generalizing e s with
  | nil => exact he
  | cons step rest ih => exact ih (hact e s step he) (e.act s step.action).state

/-! ## Single actions -/

theorem act_reconfigure_of_error {e : Encoder} {config : Config} {error : EncodeError}
    (h : e.reconfigure config = .error error) (s : σ) :
    e.act s (.reconfigure config) = ⟨e, s, .ended (.failed error), []⟩ := by
  rw [act, h]

theorem act_reconfigure_of_ok {e changed : Encoder} {config : Config}
    (h : e.reconfigure config = .ok changed) (s : σ) :
    e.act s (.reconfigure config) = ⟨changed, s, .ended .done, []⟩ := by
  rw [act, h]

/-! ## Single steps -/

theorem act_refused {config : Config} {error : EncodeError} (h : config.layout = .error error)
    (e : Encoder) (s : σ) :
    e.act s (Step.reconfigure config).action = ⟨e, s, .ended (.failed error), []⟩ :=
  act_reconfigure_of_error (reconfigure_of_error h e) s

theorem act_accepted {config : Config} {layout : Layout} (h : config.layout = .ok layout)
    (e : Encoder) (s : σ) :
    e.act s (Step.reconfigure config).action =
      ⟨⟨config, e.adapt config layout 0 e.mid, e.adapt config layout 1 e.side⟩, s, .ended .done,
        []⟩ :=
  act_reconfigure_of_ok (reconfigure_of_ok h e) s

end Encoder

end SpeechFrame
