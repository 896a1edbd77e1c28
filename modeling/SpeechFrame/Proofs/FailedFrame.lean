import SpeechFrame.Proofs.Course

set_option autoImplicit false

/-! # What a failed frame leaves behind

A frame that fails is not counted, its layout stays, and the record is cleared before the next one.
The gain memory is not rolled back: whether a stage undoes what it did to it before it reports an
error is the stage's own affair. So the frame after a failed one begins as the failed one did, up to
the gain memory, and with that as the last stage left it. -/

namespace SpeechFrame.Channel

variable {σ τ : Type} {c : Channel} {index : Nat} {stages : Stages σ} {s : σ}

/-- A frame begins with the call of analysis that the channel alone determines. -/
theorem head?_calls (c : Channel) (index : Nat) (stages : Stages σ) (s : σ) :
    (c.calls index stages s).head? = some (c.opening index) := by
  obtain ⟨a, ha⟩ : ∃ a, c.analysis index stages s = a := ⟨_, rfl⟩
  by_cases hdone : a.verdict = .done
  · rw [(encode_of_analysis_done ha hdone rfl).1, List.head?_cons]
  · rw [(encode_of_analysis_stopped ha hdone).1, List.head?_cons]

/-- A failed frame changes the record and the gain memory only, and the gain memory is the one that
    its last call left, which is the call that failed. -/
theorem Course.after_failed {t : List Exchange} {error : EncodeError} {c' : Channel}
    (h : c.Course index t (.failed error) c') :
    ∃ last, t.getLast? = some last ∧ last.verdict = .failed error ∧
      c'.frames = c.frames ∧ c'.layout = c.layout ∧ c'.memory = last.memory := by
  -- the verdict of a course may be that of a stage, so `cases` needs a variable in its place
  generalize hv : Verdict.failed error = v at h
  cases h with
  | @analysisStopped a _ _ => exact ⟨a, rfl, rfl, rfl, rfl, rfl⟩
  | @quantizationStopped _ q _ _ _ _ => exact ⟨q, rfl, rfl, rfl, rfl, rfl⟩
  | counterExhausted => cases hv
  | counted => cases hv

/-- **The frame after a failed one.** Its first call is the failed frame's first call, with the same
    frame number, layout and zero record, but for the number it is encoded under and for the gain
    memory, which is as the call that failed left it. The stages may be others by then. -/
theorem opening_after_failed {error : EncodeError}
    (hfailed : (c.encode index stages s).verdict = .failed error)
    (next : Nat) (later : Stages τ) (s' : τ) :
    ∃ first second last,
      (c.calls index stages s).head? = some first ∧
      ((c.encode index stages s).after.calls next later s').head? = some second ∧
      (c.transcript index stages s).getLast? = some last ∧
      last.verdict = .failed error ∧
      first.stage = .analyze ∧ first.record = .zero ∧
      second = { first with
        info := { first.info with channel := next }
        memory := last.memory } := by
  have hcourse := c.encode_course index stages s
  rw [hfailed] at hcourse
  obtain ⟨last, hlast, hverdict, hframes, hlayout, hmemory⟩ := hcourse.after_failed
  refine ⟨_, _, last, head?_calls c index stages s, head?_calls _ next later s', hlast, hverdict,
    rfl, rfl, ?_⟩
  rw [opening, nextFrame, hframes, hlayout, hmemory]
  rfl

/-- Quantisation that moves the gain index from 10 to 33 and then fails. -/
theorem opening_after_failed_quantization :
    let c := fresh .full
    let stages : Stages Unit :=
      ⟨fun s _ memory record => ⟨s, memory, record, .done⟩,
        fun s _ _ _ => ⟨s, ⟨33⟩, .failed .internal⟩⟩
    let after := (c.encode 0 stages ()).after
    (c.encode 0 stages ()).verdict = .failed .internal ∧
      ∃ first second last,
        (c.calls 0 stages ()).head? = some first ∧
        (after.calls 0 stages ()).head? = some second ∧
        (c.transcript 0 stages ()).getLast? = some last ∧
        last.verdict = .failed .internal ∧
        first.stage = .analyze ∧ first.record = .zero ∧
        second = { first with
          info := { first.info with channel := 0 }
          memory := last.memory } := by
  intro c stages after
  have hfailed : (c.encode 0 stages ()).verdict = .failed .internal := rfl
  exact ⟨hfailed, opening_after_failed hfailed 0 stages ()⟩

/-- The gain memory does not come through a failed frame unchanged: analysis may set the gain index
    and then fail. -/
theorem not_same_opening_after_failed :
    ¬ ∀ (c : Channel) (index : Nat) (stages : Stages Unit) (s : Unit) (error : EncodeError),
      (c.encode index stages s).verdict = .failed error →
      ∀ first second,
        (c.calls index stages s).head? = some first →
        ((c.encode index stages s).after.calls index stages s).head? = some second →
        second.info.number = first.info.number ∧ second.info.layout = first.info.layout ∧
          second.record = .zero ∧ first.record = .zero ∧ second.memory = first.memory := by
  intro hsame
  let stages : Stages Unit :=
    ⟨fun s _ _ record => ⟨s, ⟨33⟩, record, .failed .internal⟩,
      fun s _ memory _ => ⟨s, memory, .done⟩⟩
  obtain ⟨-, -, -, -, hmemory⟩ := hsame (fresh .full) 0 stages () .internal rfl _ _
    (head?_calls _ 0 stages ()) (head?_calls _ 0 stages ())
  exact absurd hmemory (by decide)

end SpeechFrame.Channel
