import SpeechFrame.Proofs.FilterViews

set_option autoImplicit false

/-! # What a decoder sees of the encoder's work

A decoder's record is filled from some fields of the encoder's, the decoder's part of it, and the
encoder works on those and on the others by the same kinds of writes. So a write that is meant for
the encoder alone could show in the decoder's part, or what the encoder keeps to itself could find
its way there. Neither happens. A write for the encoder alone leaves the decoder's part as it is
(`toSynthesisRecord_attempt_of_encoderOnly`), and what any other write makes of that part depends on
nothing else in the record (`toSynthesisRecord_attempt_congr`). From the two it follows for any
number of writes, faults included, that those for the encoder alone might as well be left out. -/

namespace SpeechFrame

theorem SynthesisRecord.eq_iff (s s' : SynthesisRecord) :
    s = s' ↔
      s.pitchLags = s'.pitchLags ∧ s.gains = s'.gains ∧
        s.interpolatedPredictor = s'.interpolatedPredictor ∧
        s.framePredictor = s'.framePredictor ∧ s.ltpTaps = s'.ltpTaps ∧
        s.ltpScale = s'.ltpScale := by
  cases s
  cases s'
  exact Iff.of_eq (SynthesisRecord.mk.injEq ..)

namespace ControlRecord

/-! ## One write -/

theorem toSynthesisRecord_setShapingTaps (r : ControlRecord) (filter : ShapingFilter)
    (taps : Vector Int16 shapingBankSize) :
    (r.setShapingTaps filter taps).toSynthesisRecord = r.toSynthesisRecord := by
  cases filter <;> rfl

theorem toSynthesisRecord_write_of_encoderOnly {r r' : ControlRecord} {w : Write}
    (hw : w.EncoderOnly) (h : r.write w = .ok r') :
    r'.toSynthesisRecord = r.toSynthesisRecord := by
  cases w with
  | subframeWord field k word =>
    obtain ⟨hlags, hgains⟩ := hw
    cases h
    cases field with
    | pitchLags => exact absurd rfl hlags
    | gains => exact absurd rfl hgains
    | _ => rfl
  | frameWord field word =>
    cases h
    cases field with
    | ltpScale => exact absurd rfl hw
    | _ => rfl
  | tap field j tap =>
    cases h
    rcases hw with rfl | rfl <;> rfl
  | lowFreq k pair =>
    cases h
    rfl
  | savedGainIndex gainIndex =>
    cases h
    rfl
  | ltp k taps => exact hw.elim
  | shaping filter k order taps =>
    obtain ⟨window, -, hset⟩ := Fault.exists_of_bind_eq_ok h
    cases hset
    exact r.toSynthesisRecord_setShapingTaps filter _
  | snapshot subframes gainIndex =>
    rw [write, snapshotGains] at h
    split at h
    · cases h
      rfl
    · cases h

/-- A write for the encoder alone leaves the part for the decoder as it is. -/
theorem toSynthesisRecord_attempt_of_encoderOnly (r : ControlRecord) {w : Write}
    (hw : w.EncoderOnly) : (r.attempt w).toSynthesisRecord = r.toSynthesisRecord := by
  rw [attempt]
  cases h : r.write w with
  | error fault => rfl
  | ok r' => exact toSynthesisRecord_write_of_encoderOnly hw h

/-- What a write makes of the part for the decoder, it makes of that part alone. -/
theorem toSynthesisRecord_attempt_congr {r r' : ControlRecord}
    (h : r.toSynthesisRecord = r'.toSynthesisRecord) (w : Write) :
    (r.attempt w).toSynthesisRecord = (r'.attempt w).toSynthesisRecord := by
  by_cases hw : w.EncoderOnly
  · rw [toSynthesisRecord_attempt_of_encoderOnly r hw,
      toSynthesisRecord_attempt_of_encoderOnly r' hw, h]
  · -- the fields of the part are the same in both, and no other field is read
    cases r
    cases r'
    cases h
    cases w with
    | subframeWord field k word => cases field <;> rfl
    | frameWord field word => cases field <;> rfl
    | tap field j tap => cases field <;> rfl
    | ltp k taps =>
      simp only [attempt, write, setLtp]
      cases ltpWindow k <;> rfl
    | _ => exact absurd trivial hw

/-! ## Any number of writes -/

theorem toSynthesisRecord_attemptAll_of_encoderOnly (r : ControlRecord) {writes : List Write}
    (h : ∀ w ∈ writes, w.EncoderOnly) :
    (r.attemptAll writes).toSynthesisRecord = r.toSynthesisRecord := by
  induction writes generalizing r with
  | nil => rfl
  | cons w rest ih =>
    rw [List.forall_mem_cons] at h
    rw [← r.toSynthesisRecord_attempt_of_encoderOnly h.1]
    exact ih (r.attempt w) h.2

theorem toSynthesisRecord_attemptAll_congr {r r' : ControlRecord}
    (h : r.toSynthesisRecord = r'.toSynthesisRecord) (writes : List Write) :
    (r.attemptAll writes).toSynthesisRecord = (r'.attemptAll writes).toSynthesisRecord := by
  induction writes generalizing r r' with
  | nil => exact h
  | cons w rest ih => exact ih (toSynthesisRecord_attempt_congr h w)

/-- Writes for the encoder alone can be left out from among others. -/
theorem toSynthesisRecord_attemptAll_filter (r : ControlRecord) (writes : List Write) :
    (r.attemptAll writes).toSynthesisRecord =
      (r.attemptAll (writes.filter (¬ ·.EncoderOnly))).toSynthesisRecord := by
  induction writes generalizing r with
  | nil => rfl
  | cons w rest ih =>
    by_cases hw : w.EncoderOnly
    · rw [List.filter_cons_of_neg (by simpa using hw)]
      calc
        _ = ((r.attempt w).attemptAll rest).toSynthesisRecord := rfl
        _ = (r.attemptAll rest).toSynthesisRecord :=
          toSynthesisRecord_attemptAll_congr (r.toSynthesisRecord_attempt_of_encoderOnly hw) rest
        _ = _ := ih r
    · rw [List.filter_cons_of_pos (by simpa using hw)]
      exact ih (r.attempt w)

/-! ## The projection -/

/-- The part for the decoder is six fields and nothing else. -/
theorem toSynthesisRecord_eq_iff (r r' : ControlRecord) :
    r.toSynthesisRecord = r'.toSynthesisRecord ↔
      r.pitchLags = r'.pitchLags ∧ r.gains = r'.gains ∧
        r.interpolatedPredictor = r'.interpolatedPredictor ∧
        r.framePredictor = r'.framePredictor ∧ r.ltpTaps = r'.ltpTaps ∧
        r.ltpScale = r'.ltpScale :=
  SynthesisRecord.eq_iff _ _

/-- A long-term predictor shows in the part for the decoder at the taps of its subframe only. -/
theorem toSynthesisRecord_setLtp (r : ControlRecord) {k : Nat} (hk : k < maxSubframes)
    (taps : Vector Int16 ltpOrder) :
    ∃ r', r.setLtp k taps = .ok r' ∧
      r'.toSynthesisRecord = { r.toSynthesisRecord with ltpTaps := r'.ltpTaps } ∧
      ∀ j (hj : j < ltpBankSize), r'.ltpTaps[j] =
        if h : ltpOrder * k ≤ j ∧ j < ltpOrder * k + ltpOrder then taps[j - ltpOrder * k]
        else r.ltpTaps[j] := by
  obtain ⟨r', hr', hrest, hentries⟩ := r.setLtp_entries hk taps
  refine ⟨r', hr', congrArg toSynthesisRecord hrest, ?_⟩
  simp only [Nat.mul_comm ltpOrder k]
  exact hentries

/-- **The decoder's record is a stable projection.** Two records of the encoder have the same part
    for a decoder if and only if they agree on the pitch lags, the gains, both short-term
    predictors, the long-term predictors and their scale. Clearing a record and then taking the part
    is the same as taking the part and then clearing it, and leaves zeros only. Writes for the
    encoder alone, whatever their orders and values and whether they are faults or not, do not show
    in the part, and left out from among other writes they are not missed. The long-term predictor
    of subframe `k` shows there in the taps from `5 * k` to before `5 * k + 5`, as written, and in
    no others. -/
theorem synthesisRecord_projection (r : ControlRecord) :
    (∀ r' : ControlRecord, r.toSynthesisRecord = r'.toSynthesisRecord ↔
      r.pitchLags = r'.pitchLags ∧ r.gains = r'.gains ∧
        r.interpolatedPredictor = r'.interpolatedPredictor ∧
        r.framePredictor = r'.framePredictor ∧ r.ltpTaps = r'.ltpTaps ∧
        r.ltpScale = r'.ltpScale) ∧
    (r.clear.toSynthesisRecord = r.toSynthesisRecord.clear ∧
      r.toSynthesisRecord.clear = .zero) ∧
    (∀ writes : List Write, (∀ w ∈ writes, w.EncoderOnly) →
      (r.attemptAll writes).toSynthesisRecord = r.toSynthesisRecord) ∧
    (∀ writes : List Write, (r.attemptAll writes).toSynthesisRecord =
      (r.attemptAll (writes.filter (¬ ·.EncoderOnly))).toSynthesisRecord) ∧
    ∀ k (taps : Vector Int16 ltpOrder), k < maxSubframes →
      ∃ r', r.setLtp k taps = .ok r' ∧
        r'.toSynthesisRecord = { r.toSynthesisRecord with ltpTaps := r'.ltpTaps } ∧
        ∀ j (hj : j < ltpBankSize), r'.ltpTaps[j] =
          if h : ltpOrder * k ≤ j ∧ j < ltpOrder * k + ltpOrder then taps[j - ltpOrder * k]
          else r.ltpTaps[j] := by
  refine ⟨r.toSynthesisRecord_eq_iff, ⟨r.toSynthesisRecord_clear, SynthesisRecord.clear_eq_zero _⟩,
    ?_, r.toSynthesisRecord_attemptAll_filter, ?_⟩
  · intro writes h
    exact r.toSynthesisRecord_attemptAll_of_encoderOnly h
  · intro k taps hk
    exact r.toSynthesisRecord_setLtp hk taps

/-- Noise shaping, one filter of it for a subframe that there is not, a snapshot of the gains and a
    word for the encoder leave the part as it is; the last long-term predictor does not. -/
theorem synthesisRecord_projection_of_last_subframe :
    let r : ControlRecord := { gains := .replicate _ 9, ltpTaps := .replicate _ 3 }
    let writes : List Write :=
      [.shaping .first 1 24 (.replicate _ 5), .shaping .second 4 2 (.replicate _ 6),
        .snapshot 4 7, .frameWord .lambda 11]
    (∀ w ∈ writes, w.EncoderOnly) ∧ (r.attemptAll writes).lambda = 11 ∧
      (r.attemptAll writes).toSynthesisRecord = r.toSynthesisRecord ∧
      ∃ r', r.setLtp 3 (.replicate _ 8) = .ok r' ∧
        r'.toSynthesisRecord = { r.toSynthesisRecord with ltpTaps := r'.ltpTaps } ∧
        r'.ltpTaps[14] = 3 ∧ r'.ltpTaps[15] = 8 ∧ r'.ltpTaps[19] = 8 := by
  intro r writes
  have hwrites : ∀ w ∈ writes, w.EncoderOnly := by decide
  obtain ⟨-, -, hencoder, -, hltp⟩ := synthesisRecord_projection r
  obtain ⟨r', hr', hpart, hentries⟩ := hltp 3 (.replicate _ 8) (by decide)
  exact ⟨hwrites, rfl, hencoder writes hwrites, r', hr', hpart, hentries 14 (by decide),
    hentries 15 (by decide), hentries 19 (by decide)⟩

end ControlRecord

end SpeechFrame
