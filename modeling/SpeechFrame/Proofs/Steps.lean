import SpeechFrame.Proofs.Reachable
import SpeechFrame.Run

set_option autoImplicit false

/-! # What one step does

The caller of a session sees a frame through the recorded stages, and the rest of the theory speaks
of frames without a record. This file brings the two together (`Encoder.act_encode`), and shows that
every step, refused ones included, keeps an encoder laid out by its configuration. -/

namespace SpeechFrame

variable {σ : Type}

/-! ## Frames in a session -/

theorem Channel.act_encode (c : Channel) (s : σ) (index : Nat) (stages : Stages σ) :
    c.act s (.encode index stages) =
      let run := c.encode index stages s
      ⟨run.after, run.state, .ended run.verdict, c.calls index stages s⟩ := by
  simp only [act, FrameRun.reaction, encode_recorded, List.nil_append]

namespace Encoder

variable {e : Encoder} {layout : Layout}

/-- Recording the calls changes nothing else about one channel's turn. -/
theorem encodeOn_recorded (stages : Stages σ) (run : FrameRun σ Encoder) (log : List StageCall)
    (index : Nat) :
    ∃ log', encodeOn stages.recorded ⟨run.after, (run.state, log), run.verdict, run.events⟩ index =
      let run' := encodeOn stages run index
      ⟨run'.after, (run'.state, log'), run'.verdict, run'.events⟩ := by
  simp only [encodeOn, Channel.encode_recorded]
  split
  · exact ⟨_, rfl⟩
  · exact ⟨log, rfl⟩

theorem foldl_encodeOn_recorded (stages : Stages σ) (run : FrameRun σ Encoder)
    (log : List StageCall) (numbers : List Nat) :
    ∃ log',
      numbers.foldl (encodeOn stages.recorded) ⟨run.after, (run.state, log), run.verdict, run.events⟩ =
        let run' := numbers.foldl (encodeOn stages) run
        ⟨run'.after, (run'.state, log'), run'.verdict, run'.events⟩ := by
  induction numbers generalizing run log with
  | nil => exact ⟨log, rfl⟩
  | cons index rest ih =>
    obtain ⟨log₁, hfirst⟩ := encodeOn_recorded stages run log index
    obtain ⟨log₂, hrest⟩ := ih (encodeOn stages run index) log₁
    exact ⟨log₂, by rw [List.foldl_cons, hfirst, hrest, List.foldl_cons]⟩

theorem encode_recorded (e : Encoder) (stages : Stages σ) (s : σ) :
    e.encode stages.recorded (s, []) =
      let run := e.encode stages s
      ⟨run.after, (run.state, e.calls stages s), run.verdict, run.events⟩ := by
  have hlog : ∃ log, e.encode stages.recorded (s, []) =
      let run := e.encode stages s
      ⟨run.after, (run.state, log), run.verdict, run.events⟩ := by
    unfold encode
    split
    · exact ⟨[], rfl⟩
    · next active _ => exact foldl_encodeOn_recorded stages ⟨e, s, .done, []⟩ [] active
  -- what has been recorded is what the calls are by definition
  obtain ⟨log, hlog⟩ := hlog
  rw [calls, hlog]

theorem act_encode (e : Encoder) (s : σ) (stages : Stages σ) :
    e.act s (.encode stages) =
      let run := e.encode stages s
      ⟨run.after, run.state, .ended run.verdict, e.calls stages s⟩ := by
  simp only [act, FrameRun.reaction, encode_recorded]

/-- A frame leaves the configuration alone, whatever becomes of it. -/
theorem encode_config (e : Encoder) (stages : Stages σ) (s : σ) :
    (e.encode stages s).after.config = e.config := by
  unfold encode
  split
  · rfl
  · exact foldl_encodeOn_config stages ⟨e, s, .done, []⟩ _

/-! ## Coherence -/

theorem Coherent.step (h : e.Coherent layout) (s : σ) (step : Step σ) :
    ∃ layout', (e.act s step.action).after.Coherent layout' := by
  cases step with
  | reconfigure config =>
    cases hlayout : config.layout with
    | error error =>
      rw [act_refused hlayout]
      exact ⟨layout, h⟩
    | ok layout' =>
      rw [act_accepted hlayout]
      exact coherent_of_reconfigure (reconfigure_of_ok hlayout e)
  | encode stages =>
    rw [Step.action, act_encode]
    exact ⟨layout, h.encode stages s⟩

theorem Coherent.drive (h : e.Coherent layout) (s : σ) (steps : List (Step σ)) :
    ∃ layout', (e.drive s steps).encoder.Coherent layout' := by
  refine drive_induction (P := fun e => ∃ layout, e.Coherent layout) ?_ ⟨layout, h⟩ s steps
  rintro e s step ⟨layout, h⟩
  exact h.step s step

end Encoder

end SpeechFrame
