import Mathlib.Algebra.Group.Nat.Defs
import SpeechFrame.Transcript

set_option autoImplicit false

/-! # The course of a frame

There are few ways in which a frame can go. `Channel.Course` lists those of one channel, by the
stage that ended the frame, each with the exchanges it took, the verdict and the channel it leaves;
`Encoder.Course` puts the channels together. Both are read off `encode` once, here, and everything
said about frames elsewhere is a look at these cases. -/

namespace SpeechFrame

variable {σ : Type}

/-! ## Recorded stages -/

/-- Recording the calls changes nothing else about a frame, and what was recorded before stays. -/
theorem Channel.encode_recorded (c : Channel) (index : Nat) (stages : Stages σ) (s : σ)
    (log : List StageCall) :
    c.encode index stages.recorded (s, log) =
      { c.encode index stages s with
        state := ((c.encode index stages s).state, log ++ c.calls index stages s) } := by
  -- both sides run the same two calls, so it is enough to see where the frame ends
  simp only [Channel.calls, Channel.encode, Stages.recorded, Channel.sliceTo_gains]
  cases ha : (stages.analyze s (c.nextFrame index) c.memory c.record.clear).verdict with
  | failed error => simp
  | halted fault => simp
  | done =>
    simp only
    split <;> simp

/-! ## One channel -/

/-- The call of analysis with which a frame begins: the record is zero, whatever it was. -/
def Channel.opening (c : Channel) (index : Nat) : StageCall :=
  ⟨.analyze, c.nextFrame index, c.memory, .zero⟩

/-- The call of quantisation that goes on from what analysis left. -/
def Exchange.followUp (a : Exchange) : StageCall :=
  ⟨.quantize, a.call.info, a.memory, a.record⟩

/-- The course of a frame of a channel under a number: exchanges, verdict, channel afterwards. -/
inductive Channel.Course (c : Channel) (index : Nat) : List Exchange → Verdict → Channel → Prop
  | analysisStopped {a : Exchange} (ha : a.call = c.opening index) (hstop : a.verdict ≠ .done) :
      Course c index [a] a.verdict { c with record := a.record, memory := a.memory }
  | quantizationStopped {a q : Exchange} (ha : a.call = c.opening index)
      (hdone : a.verdict = .done) (hq : q.call = a.followUp) (hstop : q.verdict ≠ .done) :
      Course c index [a, q] q.verdict { c with record := a.record, memory := q.memory }
  | counterExhausted {a q : Exchange} (ha : a.call = c.opening index)
      (hdone : a.verdict = .done) (hq : q.call = a.followUp) (hqdone : q.verdict = .done)
      (hframes : 2 ^ 64 ≤ c.frames + 1) :
      Course c index [a, q] (.halted .frameCount)
        { c with record := a.record, memory := q.memory }
  | counted {a q : Exchange} (ha : a.call = c.opening index) (hdone : a.verdict = .done)
      (hq : q.call = a.followUp) (hqdone : q.verdict = .done)
      (hframes : c.frames + 1 < 2 ^ 64) :
      Course c index [a, q] .done
        { c with record := a.record, memory := q.memory, frames := c.frames + 1 }

namespace Channel

/-- What analysis makes of the channel's next frame. -/
def analysis (c : Channel) (index : Nat) (stages : Stages σ) (s : σ) : Analysis σ :=
  stages.analyze s (c.nextFrame index) c.memory .zero

/-- What quantisation makes of the channel's next frame, if analysis leaves it to go on. -/
def quantization (c : Channel) (index : Nat) (stages : Stages σ) (s : σ) : Quantization σ :=
  let a := c.analysis index stages s
  stages.quantize a.state (c.nextFrame index) a.memory a.record

variable {c : Channel} {index : Nat} {stages : Stages σ} {s : σ}

/-- A frame that analysis ends. -/
theorem encode_of_analysis_stopped {a : Analysis σ} (ha : c.analysis index stages s = a)
    (hstop : a.verdict ≠ .done) :
    let run := c.encode index stages s
    c.calls index stages s = [c.opening index] ∧ run.state = a.state ∧ run.verdict = a.verdict ∧
      run.after = { c with record := a.record, memory := a.memory } := by
  rw [analysis] at ha
  simp only [calls, encode, Stages.recorded, ControlRecord.clear_eq_zero, ha]
  cases hv : a.verdict with
  | done => exact absurd hv hstop
  | failed error => exact ⟨rfl, rfl, rfl, rfl⟩
  | halted fault => exact ⟨rfl, rfl, rfl, rfl⟩

/-- A frame that gets as far as quantisation, and is counted if that is done too. -/
theorem encode_of_analysis_done {a : Analysis σ} {q : Quantization σ}
    (ha : c.analysis index stages s = a) (hdone : a.verdict = .done)
    (hq : c.quantization index stages s = q) :
    let run := c.encode index stages s
    let quantized := { c with record := a.record, memory := q.memory }
    c.calls index stages s =
        [c.opening index, ⟨.quantize, c.nextFrame index, a.memory, a.record⟩] ∧
      run.state = q.state ∧
      run.verdict = (if q.verdict = .done then quantized.countFrame.2 else q.verdict) ∧
      run.after = (if q.verdict = .done then quantized.countFrame.1 else quantized) := by
  rw [quantization, ha] at hq
  rw [analysis] at ha
  simp only [calls, encode, Stages.recorded, ControlRecord.clear_eq_zero, ha, hdone, sliceTo_gains,
    hq]
  cases hv : q.verdict with
  | done => exact ⟨rfl, rfl, rfl, rfl⟩
  | failed error => exact ⟨rfl, rfl, rfl, rfl⟩
  | halted fault => exact ⟨rfl, rfl, rfl, rfl⟩

/-- The record after a frame is the one that analysis left, however the frame ended. -/
theorem record_encode (c : Channel) (index : Nat) (stages : Stages σ) (s : σ) :
    (c.encode index stages s).after.record = (c.analysis index stages s).record := by
  by_cases hdone : (c.analysis index stages s).verdict = .done
  · rw [(encode_of_analysis_done rfl hdone rfl).2.2.2, countFrame]
    split
    · split <;> rfl
    · rfl
  · rw [(encode_of_analysis_stopped rfl hdone).2.2.2]

/-- The gain memory after a frame is the one that the last stage left. -/
theorem memory_encode (c : Channel) (index : Nat) (stages : Stages σ) (s : σ) :
    (c.encode index stages s).after.memory =
      if (c.analysis index stages s).verdict = .done then (c.quantization index stages s).memory
      else (c.analysis index stages s).memory := by
  split
  · next hdone =>
    rw [(encode_of_analysis_done rfl hdone rfl).2.2.2, countFrame]
    split
    · split <;> rfl
    · rfl
  · next hstop => rw [(encode_of_analysis_stopped rfl hstop).2.2.2]

/-- A channel's calls are all made under the number that its frame is encoded under. -/
theorem channel_of_mem_calls (c : Channel) (index : Nat) (stages : Stages σ) (s : σ) :
    ∀ call ∈ c.calls index stages s, call.info.channel = index := by
  intro call hcall
  by_cases hdone : (c.analysis index stages s).verdict = .done
  · rw [(encode_of_analysis_done rfl hdone rfl).1] at hcall
    simp only [List.mem_cons, List.not_mem_nil, or_false] at hcall
    rcases hcall with rfl | rfl
    · rfl
    · rfl
  · rw [(encode_of_analysis_stopped rfl hdone).1, List.mem_singleton] at hcall
    rw [hcall]
    rfl

theorem converse_opening {a : Analysis σ} (ha : c.analysis index stages s = a) :
    stages.converse s [c.opening index] =
      ([⟨c.opening index, a.memory, a.record, a.verdict⟩], a.state) := by
  rw [← ha]
  rfl

theorem converse_both {a : Analysis σ} {q : Quantization σ}
    (ha : c.analysis index stages s = a) (hq : c.quantization index stages s = q) :
    stages.converse s
        [c.opening index, ⟨.quantize, c.nextFrame index, a.memory, a.record⟩] =
      ([⟨c.opening index, a.memory, a.record, a.verdict⟩,
        ⟨⟨.quantize, c.nextFrame index, a.memory, a.record⟩, q.memory, a.record, q.verdict⟩],
        q.state) := by
  subst ha hq
  rfl

/-- Put to the stages again, the calls of a frame leave them in the state that the frame left. -/
theorem converse_calls (c : Channel) (index : Nat) (stages : Stages σ) (s : σ) :
    stages.converse s (c.calls index stages s) =
      (c.transcript index stages s, (c.encode index stages s).state) := by
  -- the answers are the transcript by definition; the state is what has to be compared
  refine Prod.ext rfl ?_
  obtain ⟨a, ha⟩ : ∃ a, c.analysis index stages s = a := ⟨_, rfl⟩
  obtain ⟨q, hq⟩ : ∃ q, c.quantization index stages s = q := ⟨_, rfl⟩
  by_cases hdone : a.verdict = .done
  · obtain ⟨hcalls, hstate, -, -⟩ := encode_of_analysis_done ha hdone hq
    rw [hcalls, hstate, converse_both ha hq]
  · obtain ⟨hcalls, hstate, -, -⟩ := encode_of_analysis_stopped ha hdone
    rw [hcalls, hstate, converse_opening ha]

/-- Every frame takes one of the courses. -/
theorem encode_course (c : Channel) (index : Nat) (stages : Stages σ) (s : σ) :
    c.Course index (c.transcript index stages s) (c.encode index stages s).verdict
      (c.encode index stages s).after := by
  obtain ⟨a, ha⟩ : ∃ a, c.analysis index stages s = a := ⟨_, rfl⟩
  obtain ⟨q, hq⟩ : ∃ q, c.quantization index stages s = q := ⟨_, rfl⟩
  unfold transcript
  by_cases hdone : a.verdict = .done
  · obtain ⟨hcalls, -, hverdict, hafter⟩ := encode_of_analysis_done ha hdone hq
    rw [hcalls, hverdict, hafter, converse_both ha hq]
    by_cases hqdone : q.verdict = .done
    · rw [if_pos hqdone, if_pos hqdone, countFrame]
      split
      · next hframes => exact .counted rfl hdone rfl hqdone hframes
      · next hframes => exact .counterExhausted rfl hdone rfl hqdone (Nat.le_of_not_lt hframes)
    · rw [if_neg hqdone, if_neg hqdone]
      exact .quantizationStopped rfl hdone rfl hqdone
  · obtain ⟨hcalls, -, hverdict, hafter⟩ := encode_of_analysis_stopped ha hdone
    rw [hcalls, hverdict, hafter, converse_opening ha]
    exact .analysisStopped rfl hdone

/-- A frame is counted exactly when it ends well. -/
theorem Course.frames_eq {t : List Exchange} {v : Verdict} {c' : Channel}
    (h : c.Course index t v c') : c'.frames = if v = .done then c.frames + 1 else c.frames := by
  cases h with
  | analysisStopped _ hstop => rw [if_neg hstop]
  | quantizationStopped _ _ _ hstop => rw [if_neg hstop]
  | counterExhausted => rfl
  | counted => rfl

/-- Below the limit of the counter there are two courses, and a frame is counted exactly when
    quantisation is done. -/
theorem Course.cases_of_frames_lt {t : List Exchange} {v : Verdict} {c' : Channel}
    (h : c.Course index t v c') (hframes : c.frames < 2 ^ 64 - 1) :
    ∃ a, a.call = c.opening index ∧
      ((a.verdict ≠ .done ∧ t = [a] ∧ v = a.verdict ∧
          c' = { c with record := a.record, memory := a.memory }) ∨
        (a.verdict = .done ∧ ∃ q, q.call = a.followUp ∧ t = [a, q] ∧ v = q.verdict ∧
          c' = { c with
            record := a.record
            memory := q.memory
            frames := if q.verdict = .done then c.frames + 1 else c.frames })) := by
  cases h with
  | @analysisStopped a ha hstop => exact ⟨a, ha, .inl ⟨hstop, rfl, rfl, rfl⟩⟩
  | @quantizationStopped a q ha hdone hq hstop =>
    exact ⟨a, ha, .inr ⟨hdone, q, hq, rfl, rfl, by rw [if_neg hstop]⟩⟩
  | counterExhausted _ _ _ _ hlimit => omega
  | @counted a q ha hdone hq hqdone _ =>
    exact ⟨a, ha, .inr ⟨hdone, q, hq, rfl, hqdone.symm, by rw [if_pos hqdone]⟩⟩

end Channel

/-! ## Both channels -/

/-- The course of a frame of an encoder: exchanges, verdict, encoder afterwards. The side channel is
    reached if it is active and the mid channel has not stopped. -/
inductive Encoder.Course (e : Encoder) : List Exchange → Verdict → Encoder → Prop
  | midOnly {t : List Exchange} {v : Verdict} {c : Channel} (hmid : e.mid.Course 0 t v c)
      (hend : e.config.channels = 1 ∨ v ≠ .done) : Course e t v { e with mid := c }
  | both {t u : List Exchange} {v : Verdict} {c d : Channel} (hmid : e.mid.Course 0 t .done c)
      (hchannels : e.config.channels = 2) (hside : e.side.Course 1 u v d) :
      Course e (t ++ u) v { e with mid := c, side := d }

namespace Encoder

variable {e : Encoder} {stages : Stages σ} {s : σ}

/-- A frame that reaches no channel, because none is active or because there are not as many. -/
theorem encode_of_no_turn (hnone : ¬ (e.config.channels = 1 ∨ e.config.channels = 2)) :
    e.encode stages s =
      ⟨e, s, if e.config.channels = 0 then .done
        else .halted (.outOfExtent e.config.channels maxChannels), []⟩ := by
  rcases Nat.eq_zero_or_pos e.config.channels with hzero | hpos
  · rw [encode_eq_foldl (Nat.le_trans (Nat.le_of_eq hzero) (Nat.zero_le _)), hzero, if_pos rfl]
    rfl
  · have hmany : maxChannels < e.config.channels := by
      simp only [maxChannels]
      omega
    rw [encode_of_too_many hmany, if_neg (by omega)]

theorem encodeOn_mid (stages : Stages σ) (s : σ) :
    encodeOn stages ⟨e, s, .done, []⟩ 0 =
      let r := e.mid.encode 0 stages s
      ⟨{ e with mid := r.after }, r.state, r.verdict, r.events⟩ := rfl

theorem encode_of_mono (hmono : e.config.channels = 1) :
    e.encode stages s =
      let r := e.mid.encode 0 stages s
      ⟨{ e with mid := r.after }, r.state, r.verdict, r.events⟩ := by
  rw [encode_eq_foldl (Config.channels_le (.inl hmono)), hmono]
  rfl

theorem encode_of_stereo (hstereo : e.config.channels = 2) :
    e.encode stages s =
      let r := e.mid.encode 0 stages s
      encodeOn stages ⟨{ e with mid := r.after }, r.state, r.verdict, r.events⟩ 1 := by
  rw [encode_eq_foldl (Config.channels_le (.inr hstereo)), hstereo]
  rfl

/-- The side channel is out of reach, or it is reached. -/
theorem mid_only_or_done (hchannels : e.config.channels = 1 ∨ e.config.channels = 2)
    (stages : Stages σ) (s : σ) :
    (e.config.channels = 1 ∨ (e.mid.encode 0 stages s).verdict ≠ .done) ∨
      (e.config.channels = 2 ∧ (e.mid.encode 0 stages s).verdict = .done) := by
  by_cases hend : e.config.channels = 1 ∨ (e.mid.encode 0 stages s).verdict ≠ .done
  · exact .inl hend
  · obtain ⟨hmono, hdone⟩ := not_or.1 hend
    exact .inr ⟨hchannels.resolve_left hmono, Decidable.not_not.1 hdone⟩

theorem encode_of_mid_only (hchannels : e.config.channels = 1 ∨ e.config.channels = 2)
    (hend : e.config.channels = 1 ∨ (e.mid.encode 0 stages s).verdict ≠ .done) :
    e.encode stages s =
      let r := e.mid.encode 0 stages s
      ⟨{ e with mid := r.after }, r.state, r.verdict, r.events⟩ := by
  rcases hchannels with hmono | hstereo
  · exact encode_of_mono hmono
  · have hstop := hend.resolve_left (by omega)
    rw [encode_of_stereo hstereo]
    exact encodeOn_of_stopped hstop stages 1

theorem encode_of_mid_done (hstereo : e.config.channels = 2)
    (hdone : (e.mid.encode 0 stages s).verdict = .done) :
    e.encode stages s =
      let r := e.mid.encode 0 stages s
      let r' := e.side.encode 1 stages r.state
      ⟨{ e with mid := r.after, side := r'.after }, r'.state, r'.verdict,
        r.events ++ r'.events⟩ := by
  rw [encode_of_stereo hstereo]
  simp only [encodeOn, held, setChannel, hdone]

theorem calls_of_no_turn (hnone : ¬ (e.config.channels = 1 ∨ e.config.channels = 2)) :
    e.calls stages s = [] := by
  rw [calls, encode_of_no_turn hnone]

theorem calls_of_mid_only (hchannels : e.config.channels = 1 ∨ e.config.channels = 2)
    (hend : e.config.channels = 1 ∨ (e.mid.encode 0 stages s).verdict ≠ .done) :
    e.calls stages s = e.mid.calls 0 stages s := by
  rw [calls, encode_of_mid_only hchannels (by rw [Channel.encode_recorded]; exact hend)]
  rfl

theorem calls_of_mid_done (hstereo : e.config.channels = 2)
    (hdone : (e.mid.encode 0 stages s).verdict = .done) :
    e.calls stages s =
      e.mid.calls 0 stages s ++ e.side.calls 1 stages (e.mid.encode 0 stages s).state := by
  rw [calls, encode_of_mid_done hstereo (by rw [Channel.encode_recorded]; exact hdone)]
  simp only [Channel.encode_recorded, List.nil_append]

theorem converse_calls_of_mid_only (hchannels : e.config.channels = 1 ∨ e.config.channels = 2)
    (hend : e.config.channels = 1 ∨ (e.mid.encode 0 stages s).verdict ≠ .done) :
    stages.converse s (e.calls stages s) =
      (e.mid.transcript 0 stages s, (e.mid.encode 0 stages s).state) := by
  rw [calls_of_mid_only hchannels hend, Channel.converse_calls]

theorem converse_calls_of_mid_done (hstereo : e.config.channels = 2)
    (hdone : (e.mid.encode 0 stages s).verdict = .done) :
    stages.converse s (e.calls stages s) =
      let s' := (e.mid.encode 0 stages s).state
      (e.mid.transcript 0 stages s ++ e.side.transcript 1 stages s',
        (e.side.encode 1 stages s').state) := by
  rw [calls_of_mid_done hstereo hdone, Stages.converse_append, Channel.converse_calls,
    Channel.converse_calls]

/-- Put to the stages again, the calls of a frame leave them in the state that the frame left. -/
theorem converse_calls (hchannels : e.config.channels = 1 ∨ e.config.channels = 2)
    (stages : Stages σ) (s : σ) :
    stages.converse s (e.calls stages s) = (e.transcript stages s, (e.encode stages s).state) := by
  refine Prod.ext rfl ?_
  rcases mid_only_or_done hchannels stages s with hend | ⟨hstereo, hdone⟩
  · rw [converse_calls_of_mid_only hchannels hend, encode_of_mid_only hchannels hend]
  · rw [converse_calls_of_mid_done hstereo hdone, encode_of_mid_done hstereo hdone]

/-- Every frame of an encoder with an active channel takes one of the courses. -/
theorem encode_course (hchannels : e.config.channels = 1 ∨ e.config.channels = 2)
    (stages : Stages σ) (s : σ) :
    e.Course (e.transcript stages s) (e.encode stages s).verdict (e.encode stages s).after := by
  have hmid := e.mid.encode_course 0 stages s
  unfold transcript
  rcases mid_only_or_done hchannels stages s with hend | ⟨hstereo, hdone⟩
  · rw [converse_calls_of_mid_only hchannels hend, encode_of_mid_only hchannels hend]
    exact .midOnly hmid hend
  · have hside := e.side.encode_course 1 stages (e.mid.encode 0 stages s).state
    rw [converse_calls_of_mid_done hstereo hdone, encode_of_mid_done hstereo hdone]
    rw [hdone] at hmid
    exact .both hmid hstereo hside

end Encoder

end SpeechFrame
