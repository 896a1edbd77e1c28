import SpeechFrame.Proofs.Integrity
import SpeechFrame.Record.Subframe

set_option autoImplicit false

/-! # Every layout serves every record

The extents of a layout are checked once, when it is built, and relied on ever after: a stage takes
the views of its subframes by them, and a channel the gains it reports. This file says what the
check admits (`Layout.ofExtents_spec`) and that it is enough (`ControlRecord.serves`). A channel can
only hold a layout that has passed, and an encoder only have a configuration in force that asks for
channels it has. So no frame is ever cut off for an extent: that happens when a stage breaks a rule
itself, or when a frame counter has come to its end. -/

namespace SpeechFrame

variable {σ : Type}

/-! ## Which layouts there are -/

namespace Layout

/-- Which extents make a layout, and why the others do not. -/
theorem ofExtents_spec (subframes predictorOrder shapingOrder samples : Nat) :
    if subframes = 2 ∨ subframes = 4 then
      if (predictorOrder = 10 ∨ predictorOrder = 16) ∧
          (shapingOrder % 2 = 0 ∧ 2 ≤ shapingOrder ∧ shapingOrder ≤ 24) ∧ 1 ≤ samples then
        ∃ l, ofExtents subframes predictorOrder shapingOrder samples = .ok l
      else ofExtents subframes predictorOrder shapingOrder samples = .error .internal
    else ofExtents subframes predictorOrder shapingOrder samples = .error .unsupportedPacketSize := by
  split
  · next hsubframes =>
    have hsubframes : subframes = maxSubframes ∨ subframes = maxSubframes / 2 := hsubframes.symm
    split
    · next h =>
      obtain ⟨hpredictor, ⟨heven, hlow, hhigh⟩, hsamples⟩ := h
      exact ⟨_, ofExtents_eq_ok hsubframes hpredictor ⟨by omega, hhigh, heven⟩ hsamples⟩
    · next h =>
      rw [ofExtents, dif_pos hsubframes, dif_neg]
      rintro ⟨hpredictor, ⟨hpos, hhigh, heven⟩, hsamples⟩
      exact h ⟨hpredictor, ⟨heven, by omega, hhigh⟩, hsamples⟩
  · next hsubframes =>
    rw [ofExtents, dif_neg fun h => hsubframes h.symm]

end Layout

/-! ## What a frame asks of a record -/

/-- All that a frame of a layout asks of a record is there. A window is a run of entries inside
    the record, so a view through one has exactly its length. -/
structure ControlRecord.Serves (r : ControlRecord) (l : Layout) : Prop where
  predictor : ∀ k < l.subframes, ∀ interpolated,
    ∃ w : Window maxPredictorOrder l.predictorOrder, w.start = 0 ∧
      ∃ row ∈ [r.interpolatedPredictor, r.framePredictor],
        r.predictor k l.predictorOrder interpolated = .ok (w.read row)
  ltp : ∀ k < l.subframes, ∃ w : Window ltpBankSize ltpOrder, w.start = k * ltpOrder ∧
    r.ltp k = .ok (w.read r.ltpTaps) ∧
    ∀ taps, r.setLtp k taps = .ok { r with ltpTaps := w.write r.ltpTaps taps }
  shaping : ∀ filter, ∀ k < l.subframes,
    ∃ w : Window shapingBankSize l.shapingOrder, w.start = k * maxShapingOrder ∧
      r.shaping filter k l.shapingOrder = .ok (w.read (r.shapingTaps filter)) ∧
      ∀ taps : Vector Int16 l.shapingOrder, r.setShaping filter k taps =
        .ok (r.setShapingTaps filter (w.write (r.shapingTaps filter) taps))
  lowFreqWords : ∃ words, r.lowFreqWords l.subframes = .ok words
  snapshotGains : ∀ gainIndex, ∃ r', r.snapshotGains l.subframes gainIndex = .ok r'

theorem ControlRecord.serves (r : ControlRecord) (l : Layout) : r.Serves l := by
  have hbank : ∀ k < l.subframes, k < maxSubframes :=
    fun k hk => Nat.lt_of_lt_of_le hk l.subframes_le
  refine ⟨?_, ?_, ?_, ?_, ?_⟩
  · intro k hk interpolated
    refine ⟨.leading l.predictorOrder_le, rfl, _, ?_,
      r.predictor_eq_ok (hbank k hk) l.predictorOrder_le interpolated⟩
    split <;> simp
  · intro k hk
    exact ⟨.ofBank (hbank k hk) (Nat.le_refl _), rfl, r.ltp_eq_ok (hbank k hk),
      r.setLtp_eq_ok (hbank k hk)⟩
  · intro filter k hk
    exact ⟨.ofBank (hbank k hk) l.shapingOrder_le, rfl,
      r.shaping_eq_ok filter (hbank k hk) l.shapingOrder_le,
      r.setShaping_eq_ok filter (hbank k hk) l.shapingOrder_le⟩
  · exact ⟨_, r.lowFreqWords_eq_ok l.subframes_le⟩
  · exact fun gainIndex => ⟨_, r.snapshotGains_eq_ok l.subframes_le gainIndex⟩

/-! ## What a frame can be cut off by -/

namespace Channel

variable {c c' : Channel} {index : Nat} {stages : Stages σ} {s : σ} {t : List Exchange}
  {fault : Fault}

/-- A frame of a channel is cut off by a stage or by its counter and by nothing else. -/
theorem Course.halted_cases (h : c.Course index t (.halted fault) c') :
    (∃ x ∈ t, x.verdict = .halted fault) ∨ fault = .frameCount ∧ 2 ^ 64 ≤ c.frames + 1 := by
  generalize hv : Verdict.halted fault = v at h
  cases h with
  | @analysisStopped a _ _ => exact .inl ⟨a, by simp, rfl⟩
  | @quantizationStopped _ q _ _ _ _ => exact .inl ⟨q, by simp, rfl⟩
  | counterExhausted _ _ _ _ hframes =>
    cases hv
    exact .inr ⟨rfl, hframes⟩
  | counted => cases hv

theorem halted_cases (h : (c.encode index stages s).verdict = .halted fault) :
    (∃ x ∈ c.transcript index stages s, x.verdict = .halted fault) ∨
      fault = .frameCount ∧ 2 ^ 64 ≤ c.frames + 1 := by
  have hcourse := c.encode_course index stages s
  rw [h] at hcourse
  exact hcourse.halted_cases

/-- The log shows as many gains as there are subframes. -/
theorem length_gains_of_mem_events (c : Channel) (index : Nat) (stages : Stages σ) (s : σ)
    {channel : Nat} {lambda : Int32} {gains : List Int32}
    (h : Event.frameAnalyzed channel lambda gains ∈ (c.encode index stages s).events) :
    gains.length = c.layout.subframes := by
  simp only [encode] at h
  split at h
  · simp at h
  · simp at h
  · split at h
    · simp at h
    · next slice hslice =>
      -- the report is the second event, whatever becomes of quantisation
      split at h
      all_goals
        obtain ⟨-, -, rfl⟩ : channel = index ∧ _ ∧ _ := by simpa using h
        exact length_of_sliceTo hslice

end Channel

namespace Encoder

variable {e e' : Encoder} {stages : Stages σ} {s : σ} {t : List Exchange} {fault : Fault}

/-- A frame of an encoder is cut off by a stage or by the counter of one of its channels. -/
theorem Course.halted_cases (h : e.Course t (.halted fault) e') :
    (∃ x ∈ t, x.verdict = .halted fault) ∨
      fault = .frameCount ∧ ∃ index c, e.held index = some c ∧ 2 ^ 64 ≤ c.frames + 1 := by
  cases h with
  | midOnly hmid _ =>
    rcases hmid.halted_cases with hstage | ⟨hfault, hframes⟩
    · exact .inl hstage
    · exact .inr ⟨hfault, 0, _, rfl, hframes⟩
  | both _ _ hside =>
    rcases hside.halted_cases with ⟨x, hx, hstage⟩ | ⟨hfault, hframes⟩
    · exact .inl ⟨x, List.mem_append_right _ hx, hstage⟩
    · exact .inr ⟨hfault, 1, _, rfl, hframes⟩

theorem halted_cases (hchannels : e.config.channels = 1 ∨ e.config.channels = 2)
    (h : (e.encode stages s).verdict = .halted fault) :
    (∃ x ∈ e.transcript stages s, x.verdict = .halted fault) ∨
      fault = .frameCount ∧ ∃ index c, e.held index = some c ∧ 2 ^ 64 ≤ c.frames + 1 := by
  have hcourse := encode_course hchannels stages s
  rw [h] at hcourse
  exact hcourse.halted_cases

/-- **Every layout serves every record.** A layout comes from two or four subframes, a predictor of
    order ten or sixteen, shaping filters of an even order up to twenty-four, and subframes that are
    not empty; from nothing else. Whatever layout a channel has been given, every view that a frame
    takes by it is there in full, in every record. Frames report as many gains as they have
    subframes, and after any session the active channels are among those that the encoder holds: it
    is no fault to look for a channel, and only a stage or a frame counter can cut off a frame. -/
theorem layouts_serve_records {config : Config} (he : ofConfig config = .ok e) (s : σ)
    (actions : List (Action σ)) :
    (∀ subframes predictorOrder shapingOrder samples,
      let built := Layout.ofExtents subframes predictorOrder shapingOrder samples
      (if subframes = 2 ∨ subframes = 4 then
        if (predictorOrder = 10 ∨ predictorOrder = 16) ∧
            (shapingOrder % 2 = 0 ∧ 2 ≤ shapingOrder ∧ shapingOrder ≤ 24) ∧ 1 ≤ samples then
          ∃ l, built = .ok l
        else built = .error .internal
      else built = .error .unsupportedPacketSize) ∧
      ∀ l, built = .ok l ↔ l.subframes = subframes ∧ l.predictorOrder = predictorOrder ∧
        l.shapingOrder = shapingOrder ∧ l.subframeSamples = samples) ∧
    (∀ (l : Layout) (r : ControlRecord), r.Serves l) ∧
    (∀ (c : Channel) (index : Nat) (stages : Stages σ) (s : σ),
      (∀ channel lambda gains,
        .frameAnalyzed channel lambda gains ∈ (c.encode index stages s).events →
          gains.length = c.layout.subframes) ∧
      ∀ fault, (c.encode index stages s).verdict = .halted fault →
        (∃ x ∈ c.transcript index stages s, x.verdict = .halted fault) ∨
          fault = .frameCount ∧ 2 ^ 64 ≤ c.frames + 1) ∧
    let after := (e.run s actions).encoder
    after.config.channels ≤ maxChannels ∧
      (∀ index, ∃ shown, after.channel index = .ok shown ∧
        (shown.isSome ↔ index < after.config.channels)) ∧
      ∀ (stages : Stages σ) (s : σ) fault, (after.encode stages s).verdict = .halted fault →
        (∃ x ∈ after.transcript stages s, x.verdict = .halted fault) ∨
          fault = .frameCount ∧ ∃ index c, after.held index = some c ∧ 2 ^ 64 ≤ c.frames + 1 := by
  refine ⟨?_, fun l r => r.serves l, ?_, ?_⟩
  · intro subframes predictorOrder shapingOrder samples built
    exact ⟨Layout.ofExtents_spec subframes predictorOrder shapingOrder samples,
      fun l => Layout.ofExtents_eq_ok_iff⟩
  · intro c index stages s
    exact ⟨fun _ _ _ h => c.length_gains_of_mem_events index stages s h,
      fun _ h => Channel.halted_cases h⟩
  · intro after
    obtain ⟨layout, hcoherent⟩ := coherent_of_ofConfig he
    have hsound : after.Sound :=
      sound_run (Config.validate_of_layout_ok hcoherent.config_layout) s actions
    have hchannels := Config.channels_eq_of_validate hsound.validate_eq
    exact ⟨hsound.channels_le_two, hsound.exists_channel, fun _ _ _ h => halted_cases hchannels h⟩

/-- A stereo encoder whose side channel a caller has put on the smallest layout there is. -/
theorem records_served_at_smallest_layout :
    let short : Layout := ⟨2, 10, 12, 40, by decide, by decide, by decide, by decide⟩
    let tiny : Layout := ⟨2, 10, 2, 1, by decide, by decide, by decide, by decide⟩
    let e : Encoder := ⟨⟨2, 8, 10, 0⟩, .fresh short, .fresh short⟩
    let stages : Stages Unit :=
      ⟨fun s _ memory record => ⟨s, memory, record, .done⟩, fun s _ memory _ => ⟨s, memory, .done⟩⟩
    let after := (e.run () [.encode stages, .onChannel 1 (.relayout tiny)]).encoder
    ofConfig ⟨2, 8, 10, 0⟩ = .ok e ∧ Layout.ofExtents 2 10 2 1 = .ok tiny ∧
      Layout.ofExtents 2 10 1 1 = .error .internal ∧
      Layout.ofExtents 3 10 2 1 = .error .unsupportedPacketSize ∧
      after.side.layout = tiny ∧ after.side.record.Serves tiny ∧
      (∀ channel lambda gains,
        .frameAnalyzed channel lambda gains ∈ (after.side.encode 1 stages ()).events →
          gains.length = 2) ∧
      after.config.channels ≤ maxChannels ∧
      ∃ shown, after.channel 1 = .ok shown ∧ shown.isSome := by
  intro short tiny e stages after
  have he : ofConfig ⟨2, 8, 10, 0⟩ = .ok e := rfl
  obtain ⟨hlayouts, hserves, hframes, hchannels, hactive, -⟩ :=
    layouts_serve_records he () [.encode stages, .onChannel 1 (.relayout tiny)]
  obtain ⟨shown, hshown, hisSome⟩ := hactive 1
  exact ⟨he, ((hlayouts 2 10 2 1).2 tiny).2 ⟨rfl, rfl, rfl, rfl⟩, (hlayouts 2 10 1 1).1,
    (hlayouts 3 10 2 1).1, rfl, hserves tiny _, (hframes after.side 1 stages ()).1, hchannels,
    shown, hshown, hisSome.2 (by decide)⟩

end Encoder

end SpeechFrame
