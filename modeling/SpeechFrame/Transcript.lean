import SpeechFrame.Encoder

set_option autoImplicit false

/-! # Transcripts of frames

What a frame does to an encoder is settled by the calls it makes and by what the stages answer. An
`Exchange` is one call with its answer, and the transcript of a frame lists the exchanges in order.
The calls are those that the recorded stages wrote down while the frame was encoded; the answers
are found by putting the same calls to the stages, one after the other, from the same state. -/

namespace SpeechFrame

/-- A call of a stage, and the gain memory, the record and the verdict that the stage left. -/
structure Exchange where
  call : StageCall
  memory : GainMemory
  record : ControlRecord
  verdict : Verdict
  deriving DecidableEq, Repr

namespace Stages

variable {σ : Type}

/-- The answer to one call, and the state of the stages after it. Quantisation leaves the record
    that it was handed. -/
def answer (stages : Stages σ) (s : σ) (call : StageCall) : Exchange × σ :=
  match call.stage with
  | .analyze =>
    let a := stages.analyze s call.info call.memory call.record
    (⟨call, a.memory, a.record, a.verdict⟩, a.state)
  | .quantize =>
    let q := stages.quantize s call.info call.memory call.record
    (⟨call, q.memory, call.record, q.verdict⟩, q.state)

/-- The answers to some calls, one after the other, and the state of the stages after the last. -/
def converse (stages : Stages σ) (s : σ) : List StageCall → List Exchange × σ
  | [] => ([], s)
  | call :: rest =>
    let first := stages.answer s call
    let others := stages.converse first.2 rest
    (first.1 :: others.1, others.2)

theorem converse_append (stages : Stages σ) (s : σ) (calls others : List StageCall) :
    stages.converse s (calls ++ others) =
      ((stages.converse s calls).1 ++ (stages.converse (stages.converse s calls).2 others).1,
        (stages.converse (stages.converse s calls).2 others).2) := by
  induction calls generalizing s with
  | nil => rfl
  | cons call rest ih => rw [List.cons_append, converse, converse, ih]; rfl

end Stages

variable {σ : Type}

/-- The calls that one frame of a channel makes. -/
def Channel.calls (c : Channel) (index : Nat) (stages : Stages σ) (s : σ) : List StageCall :=
  (c.encode index stages.recorded (s, [])).state.2

/-- The exchanges of one frame of a channel. -/
def Channel.transcript (c : Channel) (index : Nat) (stages : Stages σ) (s : σ) : List Exchange :=
  (stages.converse s (c.calls index stages s)).1

/-- The calls that one frame of an encoder makes. -/
def Encoder.calls (e : Encoder) (stages : Stages σ) (s : σ) : List StageCall :=
  (e.encode stages.recorded (s, [])).state.2

/-- The exchanges of one frame of an encoder. -/
def Encoder.transcript (e : Encoder) (stages : Stages σ) (s : σ) : List Exchange :=
  (stages.converse s (e.calls stages s)).1

end SpeechFrame
