import SpeechFrame.Proofs.Course
import SpeechFrame.Record.Write

set_option autoImplicit false

/-! # No stale data outside the live extents

A record is held at its largest extents, and a layout has only a part of it in use. The filters of
the subframes stand in banks wider than a filter, so what is not in use lies between the entries
that are, and every view of a subframe has to keep off it. A write within a layout does
(`write_within`): it changes no entry that the layout has not in use. A frame begins with a zero
record, so after a frame whose analysis writes within the layout these entries are zero, whatever
frames of other layouts, finished or not, have left in the record before. -/

namespace SpeechFrame

namespace ControlRecord

variable {l : Layout} {r r' r'' : ControlRecord}

/-! ## Entries that are not in use -/

/-- Fields with one word for the frame, and the kept gain index, are in use under every layout. -/
theorem sameOutside_of_eq (hwords : ∀ field, r'.subframeWords field = r.subframeWords field)
    (hlowFreq : r'.lowFreq = r.lowFreq) (htaps : ∀ field, r'.taps field = r.taps field) :
    SameOutside l r r' where
  subframeWords field k hk _ := by simp only [hwords]
  lowFreq k hk _ := by simp only [hlowFreq]
  taps field j hj _ := by simp only [htaps]

theorem SameOutside.trans (h : SameOutside l r r') (h' : SameOutside l r' r'') :
    SameOutside l r r'' where
  subframeWords field k hk hidle :=
    (h'.subframeWords field k hk hidle).trans (h.subframeWords field k hk hidle)
  lowFreq k hk hidle := (h'.lowFreq k hk hidle).trans (h.lowFreq k hk hidle)
  taps field j hj hidle := (h'.taps field j hj hidle).trans (h.taps field j hj hidle)

theorem sameOutside_setSubframeWords (r : ControlRecord) (field : SubframeField)
    {words : Vector Int32 maxSubframes}
    (h : ∀ k (hk : k < maxSubframes), l.subframes ≤ k → words[k] = (r.subframeWords field)[k]) :
    SameOutside l r (r.setSubframeWords field words) where
  subframeWords other k hk hidle := by
    rw [subframeWords_setSubframeWords]
    by_cases heq : other = field
    · subst heq
      simpa using h k hk hidle
    · simp [heq]
  lowFreq k hk _ := by simp
  taps other j hj _ := by simp

theorem sameOutside_setTaps (r : ControlRecord) (field : TapField)
    {taps : Vector Int16 field.extent}
    (h : ∀ j (hj : j < field.extent), ¬ l.LiveTap field j → taps[j] = (r.taps field)[j]) :
    SameOutside l r (r.setTaps field taps) where
  subframeWords other k hk _ := by simp
  lowFreq k hk _ := by simp
  taps other j hj hidle := by
    by_cases heq : other = field
    · subst heq
      rw [taps_setTaps_self]
      exact h j hj hidle
    · rw [taps_setTaps_of_ne r taps heq]

/-- A window that covers nothing but what is in use can be written through. -/
theorem sameOutside_setTaps_window (r : ControlRecord) (field : TapField) {length : Nat}
    (w : Window field.extent length) (hw : ∀ j, w.Covers j → l.LiveTap field j)
    (entries : Vector Int16 length) :
    SameOutside l r (r.setTaps field (w.write (r.taps field) entries)) := by
  refine sameOutside_setTaps r field fun j hj hidle => ?_
  rw [Window.getElem_write, dif_neg (mt (hw j) hidle)]

/-! ## One write -/

theorem liveTap_of_covers_ltp {k : Nat} (hk : k < l.subframes) (hbank : k < maxSubframes) (j : Nat)
    (hj : (Window.ofBank hbank (Nat.le_refl ltpOrder)).Covers j) : l.LiveTap .ltpTaps j := by
  obtain ⟨rfl, -⟩ := (Window.covers_ofBank_iff hbank _ j).1 hj
  exact (Nat.div_lt_iff_lt_mul (by decide)).1 hk

theorem liveTap_of_covers_shaping {k order : Nat} (hk : k < l.subframes)
    (horder : order ≤ l.shapingOrder) (hbank : k < maxSubframes) (hfits : order ≤ maxShapingOrder)
    (j : Nat) (hj : (Window.ofBank hbank hfits).Covers j) :
    j / maxShapingOrder < l.subframes ∧ j % maxShapingOrder < l.shapingOrder := by
  obtain ⟨rfl, hmod⟩ := (Window.covers_ofBank_iff hbank hfits j).1 hj
  exact ⟨hk, Nat.lt_of_lt_of_le hmod horder⟩

theorem setLtp_within (r : ControlRecord) {k : Nat} (hk : k < l.subframes)
    (taps : Vector Int16 ltpOrder) :
    ∃ r', r.setLtp k taps = .ok r' ∧ SameOutside l r r' := by
  have hbank : k < maxSubframes := Nat.lt_of_lt_of_le hk l.subframes_le
  rw [r.setLtp_eq_ok hbank]
  exact ⟨_, rfl, sameOutside_setTaps_window r .ltpTaps _ (liveTap_of_covers_ltp hk hbank) taps⟩

theorem setShaping_within (r : ControlRecord) (filter : ShapingFilter) {k order : Nat}
    (hk : k < l.subframes) (horder : order ≤ l.shapingOrder) (taps : Vector Int16 order) :
    ∃ r', r.setShaping filter k taps = .ok r' ∧ SameOutside l r r' := by
  have hbank : k < maxSubframes := Nat.lt_of_lt_of_le hk l.subframes_le
  have hfits : order ≤ maxShapingOrder := Nat.le_trans horder l.shapingOrder_le
  have hlive := liveTap_of_covers_shaping hk horder hbank hfits
  rw [r.setShaping_eq_ok filter hbank hfits]
  refine ⟨_, rfl, ?_⟩
  cases filter with
  | first => exact sameOutside_setTaps_window r .firstShaping _ hlive taps
  | second => exact sameOutside_setTaps_window r .secondShaping _ hlive taps

theorem sameOutside_savedGainIndex (r : ControlRecord) (gainIndex : Int8) :
    SameOutside l r { r with savedGainIndex := gainIndex } := by
  refine sameOutside_of_eq (fun field => ?_) rfl (fun field => ?_)
  · cases field <;> rfl
  · cases field <;> rfl

theorem snapshotGains_within (r : ControlRecord) {subframes : Nat} (h : subframes ≤ l.subframes)
    (gainIndex : Int8) :
    ∃ r', r.snapshotGains subframes gainIndex = .ok r' ∧ SameOutside l r r' := by
  have hfits : subframes ≤ maxSubframes := Nat.le_trans h l.subframes_le
  let w := Window.leading hfits
  let copied := r.setSubframeWords .unquantizedGains (w.write r.unquantizedGains (w.read r.gains))
  have hcopied : SameOutside l r copied := by
    refine sameOutside_setSubframeWords r .unquantizedGains fun k hk hidle => ?_
    rw [Window.getElem_write_read_leading, if_neg (by omega)]
    rfl
  rw [r.snapshotGains_eq_ok hfits]
  exact ⟨_, rfl, hcopied.trans (sameOutside_savedGainIndex copied gainIndex)⟩

/-- A write within a layout is no fault, and it changes nothing outside. -/
theorem write_within (r : ControlRecord) {w : Write} (h : w.Within l) :
    ∃ r', r.write w = .ok r' ∧ SameOutside l r r' := by
  cases w with
  | subframeWord field k word =>
    refine ⟨_, rfl, sameOutside_setSubframeWords r field fun j hj hidle => ?_⟩
    have hk : k < l.subframes := h
    exact Vector.getElem_set_ne (by omega) hj (by omega)
  | frameWord field word =>
    exact ⟨_, rfl, sameOutside_of_eq (by simp) (by simp) (by simp)⟩
  | tap field j tap =>
    refine ⟨_, rfl, sameOutside_setTaps r field fun i hi hidle => ?_⟩
    have hne : (j : Nat) ≠ i := fun heq => hidle (heq ▸ h)
    exact Vector.getElem_set_ne j.isLt hi hne
  | lowFreq k pair =>
    have hk : k < l.subframes := h
    refine ⟨_, rfl, ?_, ?_, ?_⟩
    · intro field _ _ _
      cases field <;> rfl
    · intro j hj hidle
      exact Vector.getElem_set_ne k.isLt hj (by omega)
    · intro field _ _ _
      cases field <;> rfl
  | savedGainIndex gainIndex => exact ⟨_, rfl, sameOutside_savedGainIndex r gainIndex⟩
  | ltp k taps => exact setLtp_within r h taps
  | shaping filter k order taps => exact setShaping_within r filter h.1 h.2 taps
  | snapshot subframes gainIndex => exact snapshotGains_within r h gainIndex

/-- The same of any number of writes. -/
theorem writeAll_within (r : ControlRecord) {writes : List Write} (h : ∀ w ∈ writes, w.Within l) :
    ∃ r', r.writeAll writes = .ok r' ∧ SameOutside l r r' := by
  induction writes generalizing r with
  | nil => exact ⟨r, rfl, sameOutside_of_eq (fun _ => rfl) rfl (fun _ => rfl)⟩
  | cons w rest ih =>
    rw [List.forall_mem_cons] at h
    obtain ⟨r₁, hw, hfirst⟩ := r.write_within h.1
    obtain ⟨r₂, hrest, hlater⟩ := ih r₁ h.2
    exact ⟨r₂, by rw [writeAll_cons_of_ok hw, hrest], hfirst.trans hlater⟩

/-! ## Zeros where nothing is in use -/

/-- Nothing but zeros outside a layout. -/
structure ZeroOutside (l : Layout) (r : ControlRecord) : Prop where
  subframeWords : ∀ field k (hk : k < maxSubframes), l.subframes ≤ k →
    (r.subframeWords field)[k] = 0
  lowFreq : ∀ k (hk : k < maxSubframes), l.subframes ≤ k → r.lowFreq[k] = {}
  /-- The quantiser's words for the low-frequency pairs, if it asks for all of them. -/
  lowFreqWords : ∃ words, r.lowFreqWords maxSubframes = .ok words ∧
    ∀ k (hk : k < maxSubframes), l.subframes ≤ k → words[k] = 0
  predictors : ∀ j (hj : j < maxPredictorOrder), l.predictorOrder ≤ j →
    r.interpolatedPredictor[j] = 0 ∧ r.framePredictor[j] = 0
  ltpTaps : ∀ j (hj : j < ltpBankSize), l.subframes * ltpOrder ≤ j → r.ltpTaps[j] = 0
  /-- Both in the banks of subframes that are not in use and behind the live taps of a bank. -/
  shapingTaps : ∀ filter j (hj : j < shapingBankSize),
    l.subframes ≤ j / maxShapingOrder ∨ l.shapingOrder ≤ j % maxShapingOrder →
      (r.shapingTaps filter)[j] = 0

theorem getElem_subframeWords_zero (field : SubframeField) (k : Nat) (hk : k < maxSubframes) :
    (zero.subframeWords field)[k] = 0 := by
  cases field <;> exact Vector.getElem_replicate hk

theorem getElem_taps_zero (field : TapField) (j : Nat) (hj : j < field.extent) :
    (zero.taps field)[j] = 0 := by
  cases field <;> exact Vector.getElem_replicate hj

theorem getElem_lowFreq_zero (k : Nat) (hk : k < maxSubframes) : zero.lowFreq[k] = {} :=
  Vector.getElem_replicate hk

/-- All that is the same as in a zero record is zero. -/
theorem SameOutside.zeroOutside (h : SameOutside l zero r) : r.ZeroOutside l := by
  have htaps : ∀ (field : TapField) j (hj : j < field.extent), ¬ l.LiveTap field j →
      (r.taps field)[j] = 0 := by
    intro field j hj hidle
    rw [h.taps field j hj hidle, getElem_taps_zero]
  have hlowFreq : ∀ k (hk : k < maxSubframes), l.subframes ≤ k → r.lowFreq[k] = {} := by
    intro k hk hidle
    rw [h.lowFreq k hk hidle, getElem_lowFreq_zero]
  refine ⟨?_, hlowFreq, ?_, ?_, ?_, ?_⟩
  · intro field k hk hidle
    rw [h.subframeWords field k hk hidle, getElem_subframeWords_zero]
  · refine ⟨_, r.lowFreqWords_eq_ok (Nat.le_refl _), fun k hk hidle => ?_⟩
    simp only [Vector.getElem_ofFn, Fin.getElem_fin, hlowFreq k hk hidle]
    split <;> rfl
  · intro j hj hidle
    exact ⟨htaps .interpolatedPredictor j hj (Nat.not_lt.2 hidle),
      htaps .framePredictor j hj (Nat.not_lt.2 hidle)⟩
  · intro j hj hidle
    exact htaps .ltpTaps j hj (Nat.not_lt.2 hidle)
  · intro filter j hj hidle
    have hidle : ¬ (j / maxShapingOrder < l.subframes ∧ j % maxShapingOrder < l.shapingOrder) := by
      omega
    cases filter with
    | first => exact htaps .firstShaping j hj hidle
    | second => exact htaps .secondShaping j hj hidle

end ControlRecord

/-! ## A frame -/

namespace Channel

variable {σ : Type}

/-- **No stale data.** When analysis does nothing to the record but write within the layout, the
    record after the frame is what these writes make of a zero record, and zero throughout outside
    the layout. Nothing is asked of the channel before the frame, of how the two stages end, or of
    what else they do. -/
theorem encode_zeroOutside (c : Channel) (index : Nat) (stages : Stages σ) (s : σ)
    {writes : List Write} (hwithin : ∀ w ∈ writes, w.Within c.layout)
    (hanalysis : c.record.clear.writeAll writes =
      .ok (stages.analyze s (c.nextFrame index) c.memory c.record.clear).record) :
    let after := (c.encode index stages s).after
    ControlRecord.zero.writeAll writes = .ok after.record ∧ after.record.ZeroOutside c.layout := by
  intro after
  rw [ControlRecord.clear_eq_zero] at hanalysis
  have hrecord : ControlRecord.zero.writeAll writes = .ok after.record := by
    rw [hanalysis, c.record_encode index stages s]
    rfl
  obtain ⟨r, hr, hsame⟩ := ControlRecord.zero.writeAll_within hwithin
  rw [hrecord] at hr
  cases hr
  exact ⟨hrecord, hsame.zeroOutside⟩

/-- A channel that has used its whole record and then goes on with short frames: analysis fails after
    it has written what it may, and nothing of the old record is left. -/
theorem zeroOutside_of_shortened_frames :
    let short : Layout := ⟨2, 10, 12, 40, by decide, by decide, by decide, by decide⟩
    let used : ControlRecord :=
      { gains := .replicate _ 7, firstShaping := .replicate _ (-3), ltpTaps := .replicate _ 5 }
    let c : Channel := ({ record := used, frames := 9 } : Channel).relayout short
    let writes : List Write :=
      [.subframeWord .gains 1 65536, .snapshot 2 10, .ltp 1 (.replicate _ 4),
        .shaping .first 1 12 (.replicate _ 9), .tap .framePredictor ⟨9, by decide⟩ (-7),
        .lowFreq 1 ⟨1, -1⟩, .frameWord .lambda 1024]
    let stages : Stages Unit :=
      ⟨fun s _ memory record =>
          ⟨s, memory, (record.writeAll writes).toOption.getD record, .failed .internal⟩,
        fun s _ memory _ => ⟨s, memory, .done⟩⟩
    let after := (c.encode 0 stages ()).after
    (∀ w ∈ writes, w.Within c.layout) ∧ c.record ≠ .zero ∧
      (c.encode 0 stages ()).verdict = .failed .internal ∧
      ControlRecord.zero.writeAll writes = .ok after.record ∧
      after.record.ZeroOutside c.layout := by
  intro short used c writes stages after
  have hwithin : ∀ w ∈ writes, w.Within c.layout := by decide
  obtain ⟨r, hr, -⟩ := c.record.clear.writeAll_within hwithin
  have hanalysis : c.record.clear.writeAll writes =
      .ok (stages.analyze () (c.nextFrame 0) c.memory c.record.clear).record := by
    show _ = Except.ok ((c.record.clear.writeAll writes).toOption.getD c.record.clear)
    rw [hr]
    rfl
  exact ⟨hwithin, by decide, rfl, encode_zeroOutside c 0 stages () hwithin hanalysis⟩

end Channel

end SpeechFrame
