import SpeechFrame.Record.Access

set_option autoImplicit false

/-! # Operations check before they write

An operation on a record may be asked for a subframe or an order that there is not, with any number
of 64 bits for an index, and it may be given too few numbers for the taps that it is to fill. Two
things could go wrong besides the fault that it ought to report: an index might not fit its word, or
entries might be taken that their field does not have; and whatever has been stored before a stop
would stay in the record. `operations_check_first` says that none of this happens. The table of the
operations (`Operation.fault?`, `Operation.reading`, `Operation.effect`) tells all that comes of
them, both as they are done at once and as a machine goes through their steps. -/

namespace SpeechFrame

/-! ## The operations -/

namespace ControlRecord

/-- What can be told from the taps of a view can be told from the list of its family's taps. -/
theorem map_readView_eq {β : Type} (r : ControlRecord) (v : FilterView) (f : List Int16 → β) :
    ((r.readView v).map fun taps => f taps.toList) =
      match v.fault? with
      | some fault => .error fault
      | none => .ok (f (((r.filters v.family).toList.drop v.start).take v.order)) := by
  rw [readView_eq_bind]
  cases hv : v.fault? with
  | some fault =>
    rw [FilterView.window_of_fault hv]
    rfl
  | none =>
    obtain ⟨w, hw, hstart⟩ := FilterView.exists_window hv
    rw [hw, ← hstart, ← w.toList_read]
    rfl

theorem writeView_eq (r : ControlRecord) (v : FilterView) (taps : Vector Int16 v.order) :
    r.writeView v taps =
      match v.fault? with
      | some fault => .error fault
      | none =>
        .ok (r.setFilters v.family (overwriteFrom (r.filters v.family) v.start taps.toList)) := by
  rw [writeView_eq_bind]
  cases hv : v.fault? with
  | some fault =>
    rw [FilterView.window_of_fault hv]
    rfl
  | none =>
    obtain ⟨w, hw, hstart⟩ := FilterView.exists_window hv
    rw [hw, ← hstart, ← w.write_eq_overwriteFrom]
    rfl

theorem quantizeView_eq (r : ControlRecord) (lib : Binary.FloatLibrary) (v : FilterView)
    (xs : Array Binary.Value) (q : Nat) :
    r.quantizeView lib xs q v =
      match (Operation.quantize lib v xs q).fault? with
      | some fault => .error fault
      | none => .ok ((Operation.quantize lib v xs q).effect r) := by
  simp only [Operation.fault?, Operation.effect]
  rw [quantizeView_eq_bind]
  cases hv : v.fault? with
  | some fault =>
    rw [FilterView.window_of_fault hv]
    rfl
  | none =>
    obtain ⟨w, hw, hstart⟩ := FilterView.exists_window hv
    rw [hw, ← hstart]
    change (Fixed.ofFloats16 lib (w.read (r.filters v.family)) xs q >>= fun taps =>
      pure (r.setFilters v.family (w.write (r.filters v.family) taps))) = _
    by_cases hsize : xs.size = v.order
    · obtain ⟨taps, htaps, helements⟩ :=
        Fixed.ofFloats16_of_size lib (w.read (r.filters v.family)) hsize q
      have hentries : taps.toList = xs.toList.map (Fixed.ofFloat16 lib · q) := by
        rw [Vector.toList, helements, Array.toList_map]
      rw [htaps, if_pos hsize, ← hentries, ← w.write_eq_overwriteFrom]
      rfl
    · rw [Fixed.ofFloats16, if_neg hsize, if_neg hsize]
      rfl

/-- The words of the subframes that are asked for, and zeros up to the largest number of them. -/
theorem toList_fillFrom_lowFreq (r : ControlRecord) {subframes : Nat}
    (h : subframes ≤ maxSubframes) :
    (fillFrom LowFreqPair.toWord (.replicate maxSubframes 0) 0
        (r.lowFreq.toList.take subframes)).toList =
      (r.lowFreq.toList.take subframes).map LowFreqPair.toWord ++
        List.replicate (maxSubframes - subframes) 0 := by
  have hlength := r.length_take_lowFreq h
  rw [toList_fillFrom _ _ (Nat.le_trans (Nat.le_of_eq hlength) h), hlength, Vector.toList_replicate,
    List.drop_replicate]

/-- What an operation does is what the table says. -/
theorem perform_eq (r : ControlRecord) (op : Operation) :
    r.perform op =
      match op.fault? with
      | some fault => .error fault
      | none => .ok (op.reading r, op.effect r) := by
  cases op with
  | predictor k order interpolated =>
    simp only [perform, Operation.fault?]
    by_cases hk : maxSubframes ≤ k
    · rw [predictor, dif_neg (Nat.not_lt.2 hk), if_pos hk]
      rfl
    · by_cases h : maxPredictorOrder < order
      · rw [predictor, dif_pos (Nat.lt_of_not_le hk), dif_neg (Nat.not_le.2 h), if_neg hk, if_pos h]
        rfl
      · rw [r.predictor_eq_ok (Nat.lt_of_not_le hk) (Nat.le_of_not_lt h), if_neg hk, if_neg h,
          Except.map, Window.toList_read]
        rfl
  | read v => exact r.map_readView_eq v fun taps => (Reading.taps taps, r)
  | write v taps =>
    rw [perform, writeView_eq, Operation.fault?]
    cases v.fault? <;> rfl
  | quantize lib v xs q =>
    rw [perform, quantizeView_eq]
    cases (Operation.quantize lib v xs q).fault? <;> rfl
  | lowFreqWords subframes =>
    simp only [perform, Operation.fault?]
    by_cases h : maxSubframes < subframes
    · rw [lowFreqWords, if_neg (Nat.not_le.2 h), if_pos h]
      rfl
    · rw [lowFreqWords, if_pos (Nat.le_of_not_lt h), if_neg h, Except.map,
        r.toList_fillFrom_lowFreq (Nat.le_of_not_lt h)]
      rfl
  | snapshotGains subframes gainIndex =>
    simp only [perform, Operation.fault?]
    by_cases h : maxSubframes < subframes
    · rw [snapshotGains, dif_neg (Nat.not_le.2 h), if_pos h]
      rfl
    · rw [r.snapshotGains_eq_ok (Nat.le_of_not_lt h), if_neg h, Except.map,
        Window.write_eq_overwriteFrom, Window.toList_read]
      rfl

end ControlRecord

/-! ## The steps of an operation -/

namespace Access

/-- Finding the slice of a view stops only for a rule that the caller has broken. No index of a
    subframe that there is leaves its word, and no slice of an order that there is its field. -/
theorem run_viewSlice (v : FilterView) (r : ControlRecord) :
    v.slice.run r =
      match v.fault? with
      | some fault => .error (.fault fault) r
      | none => .ok ⟨v.family.field, v.start, v.order⟩ r := by
  cases v with
  | ltp k =>
    rcases (FilterView.ltp k).fault?_cases with ⟨hk, hfault⟩ | ⟨-, h, -⟩ | ⟨hk, -, hfault⟩
    · rw [hfault, FilterView.slice, run_bind_of_error (run_require_of_neg r (Nat.not_lt.2 hk) _)]
    · exact absurd h (Nat.lt_irrefl _)
    · have hnext : k + 1 < 2 ^ 64 := Nat.lt_of_le_of_lt hk (by decide)
      have hstop : (k + 1) * ltpOrder ≤ ltpBankSize := Nat.mul_le_mul_right _ hk
      have hstart : k * ltpOrder ≤ (k + 1) * ltpOrder := Nat.mul_le_mul_right _ (Nat.le_succ k)
      have hword : (k + 1) * ltpOrder < 2 ^ 64 := Nat.lt_of_le_of_lt hstop (by decide)
      have hlength : (k + 1) * ltpOrder - k * ltpOrder = ltpOrder := by
        rw [Nat.succ_mul, Nat.add_sub_cancel_left]
      rw [hfault, FilterView.slice, run_bind_of_ok (run_require_of_pos r hk _),
        run_bind_of_ok (run_word r (Nat.lt_of_le_of_lt hstart hword)),
        run_bind_of_ok (run_word r hnext), run_bind_of_ok (run_word r hword),
        run_slice .ltpTaps hstart hstop, hlength]
      rfl
  | shaping filter k order =>
    rcases (FilterView.shaping filter k order).fault?_cases with
      ⟨hk, hfault⟩ | ⟨hk, h, hfault⟩ | ⟨hk, h, hfault⟩
    · rw [hfault, FilterView.slice, run_bind_of_error (run_require_of_neg r (Nat.not_lt.2 hk) _)]
    · rw [hfault, FilterView.slice, run_bind_of_ok (run_require_of_pos r hk _),
        run_bind_of_error (run_require_of_neg r (Nat.not_le.2 h) _)]
    · have hstop : k * maxShapingOrder + order ≤ shapingBankSize := calc
        _ ≤ k * maxShapingOrder + maxShapingOrder := Nat.add_le_add_left h _
        _ = (k + 1) * maxShapingOrder := (Nat.succ_mul _ _).symm
        _ ≤ shapingBankSize := Nat.mul_le_mul_right _ hk
      have hstart : k * maxShapingOrder ≤ k * maxShapingOrder + order := Nat.le_add_right _ _
      have hword : k * maxShapingOrder + order < 2 ^ 64 := Nat.lt_of_le_of_lt hstop (by decide)
      rw [hfault, FilterView.slice, run_bind_of_ok (run_require_of_pos r hk _),
        run_bind_of_ok (run_require_of_pos r h _),
        run_bind_of_ok (run_word r (Nat.lt_of_le_of_lt hstart hword)),
        run_bind_of_ok (run_word r hword),
        run_slice _ hstart (by rw [FilterFamily.extent_field]; exact hstop),
        Nat.add_sub_cancel_left]
      rfl

/-- What is done with the slice of a view is done once the view has passed. -/
theorem run_viewSlice_bind {α : Type} (v : FilterView) (f : Slice → Access α) (r : ControlRecord) :
    (v.slice >>= f).run r =
      match v.fault? with
      | some fault => .error (.fault fault) r
      | none => (f ⟨v.family.field, v.start, v.order⟩).run r := by
  have hslice := run_viewSlice v r
  cases hv : v.fault? with
  | some fault =>
    rw [hv] at hslice
    exact run_bind_of_error hslice f
  | none =>
    rw [hv] at hslice
    exact run_bind_of_ok hslice f

/-- As many taps as a view has are stored in the places that it shows. -/
theorem run_write {v : FilterView} (h : v.fault? = none) {taps : List Int16}
    (hlength : taps.length = v.order) (r : ControlRecord) :
    (Slice.write ⟨v.family.field, v.start, v.order⟩ taps).run r =
      .ok .nothing (r.setFilters v.family (overwriteFrom (r.filters v.family) v.start taps)) := by
  have hfits : v.start + taps.length ≤ v.family.field.extent := by
    obtain ⟨w, -, hstart⟩ := FilterView.exists_window h
    rw [hlength, FilterFamily.extent_field, ← hstart]
    exact w.fits
  rw [Slice.write, run_bind_of_ok (run_storeTaps _ taps r hfits), ControlRecord.setTaps_field_overwriteFrom]
  rfl

/-- A subframe that there is uses one of the two predictors. -/
theorem predictorField_eq {k : Nat} (hk : k < maxSubframes) (interpolated : Bool) :
    predictorField k interpolated =
      pure (if interpolated ∧ k < 2 then .interpolatedPredictor else .framePredictor) := by
  match k, hk with
  | 0, _ | 1, _ | 2, _ | 3, _ => cases interpolated <;> rfl

theorem run_predictor (k order : Nat) (interpolated : Bool) (r : ControlRecord) :
    (predictor k order interpolated).run r =
      match (Operation.predictor k order interpolated).fault? with
      | some fault => .error (.fault fault) r
      | none => .ok ((Operation.predictor k order interpolated).reading r) r := by
  rw [predictor, Operation.fault?, Operation.reading]
  by_cases hk : maxSubframes ≤ k
  · rw [if_pos hk, run_bind_of_error (run_require_of_neg r (Nat.not_lt.2 hk) _)]
  · rw [if_neg hk, run_bind_of_ok (run_require_of_pos r (Nat.lt_of_not_le hk) _)]
    by_cases h : maxPredictorOrder < order
    · rw [if_pos h, run_bind_of_error (run_require_of_neg r (Nat.not_le.2 h) _)]
    · have horder := Nat.le_of_not_lt h
      rw [if_neg h, run_bind_of_ok (run_require_of_pos r horder _),
        predictorField_eq (Nat.lt_of_not_le hk), pure_bind]
      -- both fields are as long as the largest order
      split
      · rw [run_bind_of_ok (run_slice _ (Nat.zero_le _) horder r)]
        rfl
      · rw [run_bind_of_ok (run_slice _ (Nat.zero_le _) horder r)]
        rfl

theorem run_lowFreqWords (subframes : Nat) (r : ControlRecord) :
    (lowFreqWords subframes).run r =
      match (Operation.lowFreqWords subframes).fault? with
      | some fault => .error (.fault fault) r
      | none => .ok ((Operation.lowFreqWords subframes).reading r) r := by
  rw [lowFreqWords, Operation.fault?]
  by_cases h : maxSubframes < subframes
  · rw [if_pos h, run_bind_of_error (run_require_of_neg r (Nat.not_le.2 h) _)]
  · have hcount := Nat.le_of_not_lt h
    rw [if_neg h, run_bind_of_ok (run_require_of_pos r hcount _), run_bind_of_ok (run_get r),
      r.toList_fillFrom_lowFreq hcount]
    rfl

theorem run_snapshotGains (subframes : Nat) (gainIndex : Int8) (r : ControlRecord) :
    (snapshotGains subframes gainIndex).run r =
      match (Operation.snapshotGains subframes gainIndex).fault? with
      | some fault => .error (.fault fault) r
      | none => .ok .nothing ((Operation.snapshotGains subframes gainIndex).effect r) := by
  rw [snapshotGains, Operation.fault?]
  by_cases h : maxSubframes < subframes
  · rw [if_pos h, run_bind_of_error (run_require_of_neg r (Nat.not_le.2 h) _)]
  · have hcount := Nat.le_of_not_lt h
    have hfits : 0 + (r.gains.toList.take subframes).length ≤ maxSubframes := by
      rw [Nat.zero_add, List.length_take, Vector.length_toList]
      exact Nat.min_le_right _ _
    rw [if_neg h, run_bind_of_ok (run_require_of_pos r hcount _),
      run_bind_of_ok (run_span r (Nat.zero_le _) hcount), run_bind_of_ok (run_get r),
      run_bind_of_ok (run_storeWords .unquantizedGains _ r hfits)]
    rfl

end Access

/-- The steps of an operation come to what the table says, and a stop leaves the record alone. -/
theorem Operation.run_steps (op : Operation) (r : ControlRecord) :
    op.steps.run r =
      match op.fault? with
      | some fault => .error (.fault fault) r
      | none => .ok (op.reading r) (op.effect r) := by
  cases op with
  | predictor k order interpolated => exact Access.run_predictor k order interpolated r
  | read v =>
    rw [steps, Access.run_viewSlice_bind, fault?]
    cases hv : v.fault? with
    | some fault => rfl
    | none =>
      simp only [Access.run_read, ControlRecord.toList_taps_field]
      rfl
  | write v taps =>
    rw [steps, Access.run_viewSlice_bind, fault?]
    cases hv : v.fault? with
    | some fault => rfl
    | none => exact Access.run_write hv taps.length_toList r
  | quantize lib v xs q =>
    rw [steps, Access.run_viewSlice_bind, fault?]
    cases hv : v.fault? with
    | some fault => rfl
    | none =>
      simp only [Access.Slice.quantize, Option.none_or]
      by_cases hsize : xs.size = v.order
      · rw [if_pos hsize, Access.run_bind_of_ok (Access.run_require_of_pos r hsize _)]
        exact Access.run_write hv (by simpa using hsize) r
      · rw [if_neg hsize, Access.run_bind_of_error (Access.run_require_of_neg r hsize _)]
  | lowFreqWords subframes => exact Access.run_lowFreqWords subframes r
  | snapshotGains subframes gainIndex => exact Access.run_snapshotGains subframes gainIndex r

/-- **Operations check before they write.** What comes of an operation on a record, whatever it is
    asked for, is what the table says. If it breaks a rule it stops with the fault of the first one
    that it breaks, and the record is the one that it was given. Otherwise it goes through all its
    steps, with no index too large for its word and no entry that its field does not have, and
    nothing but the entries of its effect have changed. Done at once it comes to the same. -/
theorem ControlRecord.operations_check_first (r : ControlRecord) (op : Operation) :
    (op.steps.run r =
      match op.fault? with
      | some fault => .error (.fault fault) r
      | none => .ok (op.reading r) (op.effect r)) ∧
    r.perform op =
      match op.fault? with
      | some fault => .error fault
      | none => .ok (op.reading r, op.effect r) :=
  ⟨op.run_steps r, r.perform_eq op⟩

end SpeechFrame
