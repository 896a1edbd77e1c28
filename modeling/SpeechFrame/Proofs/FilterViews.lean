import SpeechFrame.Record.View

set_option autoImplicit false

/-! # Views are independent

Four banks lie in one field, and a run that is off by a little would reach into the filter of another
subframe. A view may also be shorter than its bank: a short write leaves the rest of an older and
longer filter in place, and a longer view shows it again. What writes through views make of a record
is therefore said tap by tap (`Overwritten`): the latest value wins, and outside the filters nothing
changes. This holds of one write and of writes after one another, and it determines the record; so
the order of writes to different filters is of no account. -/

namespace SpeechFrame

namespace ControlRecord

variable {r r' r'' : ControlRecord} {writes later : List Write}

/-- What some writes make of a record, if all of them are through views. -/
structure Overwritten (r : ControlRecord) (writes : List Write) (r' : ControlRecord) : Prop where
  /-- Every tap has its latest value, or the one it had if it was not written. -/
  getElem_bank : ∀ family (k : Fin maxSubframes) i (hi : i < family.maxOrder),
    (r'.bank family k)[i] = (latestTap family k i writes).getD (r.bank family k)[i]
  sameButFilters : SameButFilters r r'

/-! ## One write -/

theorem overwritten_setFilters (r : ControlRecord) (family : FilterFamily) {k order : Nat}
    (hk : k < maxSubframes) (h : order ≤ family.maxOrder) (taps : Vector Int16 order) {w : Write}
    (hw : ∀ other k' i, w.tap? other k' i =
      if (other, k') = (family, k) then taps[i]? else none) :
    Overwritten r [w]
      (r.setFilters family ((Window.ofBank hk h).write (r.filters family) taps)) := by
  constructor
  · intro other k' i hi
    have hlatest : latestTap other k' i [w] = w.tap? other k' i := by simp [latestTap]
    rw [hlatest, hw]
    by_cases heq : other = family
    · subst heq
      simp only [bank, filters_setFilters_self, Window.getElem_read_write_ofBank, Prod.mk.injEq,
        true_and]
    · simp [bank, filters_setFilters_of_ne r _ heq, heq]
  · exact r.sameButFilters_setFilters family _

/-- A write through a view is no fault, and it gives the taps that it covers their new values. -/
theorem write_overwritten (r : ControlRecord) {w : Write} (h : w.ThroughView) :
    ∃ r', r.write w = .ok r' ∧ Overwritten r [w] r' := by
  cases w with
  | ltp k taps =>
    have hk : k < maxSubframes := h
    exact ⟨_, r.setLtp_eq_ok hk taps,
      r.overwritten_setFilters .ltp hk (Nat.le_refl _) taps fun _ _ _ => rfl⟩
  | shaping filter k order taps =>
    obtain ⟨hk, horder⟩ := h
    exact ⟨_, r.setShaping_eq_ok filter hk horder taps,
      r.overwritten_setFilters (.shaping filter) hk horder taps fun _ _ _ => rfl⟩
  | _ => exact h.elim

/-! ## Any number of writes -/

theorem overwritten_nil (r : ControlRecord) : Overwritten r [] r where
  getElem_bank _ _ _ _ := rfl
  sameButFilters := .refl r

theorem Overwritten.trans (h : Overwritten r writes r') (h' : Overwritten r' later r'') :
    Overwritten r (writes ++ later) r'' := by
  constructor
  · intro family k i hi
    rw [h'.getElem_bank, h.getElem_bank, latestTap_append]
    cases latestTap family k i later <;> rfl
  · exact h.sameButFilters.trans h'.sameButFilters

theorem writeAll_overwritten (r : ControlRecord) (h : ∀ w ∈ writes, w.ThroughView) :
    ∃ r', r.writeAll writes = .ok r' ∧ Overwritten r writes r' := by
  induction writes generalizing r with
  | nil => exact ⟨r, rfl, overwritten_nil r⟩
  | cons w rest ih =>
    rw [List.forall_mem_cons] at h
    obtain ⟨r₁, hw, hfirst⟩ := r.write_overwritten h.1
    obtain ⟨r₂, hrest, hlater⟩ := ih r₁ h.2
    exact ⟨r₂, by rw [writeAll_cons_of_ok hw, hrest], hfirst.trans hlater⟩

/-- What two lists of writes make of a record is the same if the latest values are. -/
theorem Overwritten.eq_of_latestTap_eq (h : Overwritten r writes r') (h' : Overwritten r later r'')
    (hlatest : ∀ family (k : Fin maxSubframes) i,
      latestTap family k i writes = latestTap family k i later) : r' = r'' := by
  refine h.sameButFilters.eq_of_filters_eq h'.sameButFilters fun family => ?_
  -- A field of filters has no entry outside the banks.
  refine Window.eq_of_read_ofBank fun k hk => ?_
  ext i hi
  have hbank := h.getElem_bank family ⟨k, hk⟩ i hi
  rw [hlatest, ← h'.getElem_bank] at hbank
  exact hbank

/-- Writes can change places with others if the two never go to the same filter. -/
theorem writeAll_append_comm (r : ControlRecord) (h : ∀ w ∈ writes, w.ThroughView)
    (h' : ∀ w ∈ later, w.ThroughView) (hapart : ∀ w ∈ writes, ∀ w' ∈ later, w.filter? ≠ w'.filter?) :
    r.writeAll (writes ++ later) = r.writeAll (later ++ writes) := by
  have hlatest : ∀ family k i,
      latestTap family k i (writes ++ later) = latestTap family k i (later ++ writes) := by
    intro family k i
    rw [latestTap_append, latestTap_append]
    -- Only one of the two lists can have written to this filter.
    by_cases hcovered : ∃ w ∈ writes, w.filter? = some (family, k)
    · obtain ⟨w, hw, hfilter⟩ := hcovered
      have hlater : latestTap family k i later = none :=
        latestTap_of_filter?_ne (fun w' hw' heq => hapart w hw w' hw' (hfilter.trans heq.symm)) i
      rw [hlater, Option.or_none, Option.none_or]
    · have hwrites : latestTap family k i writes = none :=
        latestTap_of_filter?_ne (fun w hw hfilter => hcovered ⟨w, hw, hfilter⟩) i
      rw [hwrites, Option.or_none, Option.none_or]
  obtain ⟨r₁, hfirst, hover⟩ := r.writeAll_overwritten (List.forall_mem_append.2 ⟨h, h'⟩)
  obtain ⟨r₂, hsecond, hover'⟩ := r.writeAll_overwritten (List.forall_mem_append.2 ⟨h', h⟩)
  rw [hfirst, hsecond, hover.eq_of_latestTap_eq hover' fun family k i => hlatest family k i]

/-! ## What a caller sees -/

/-- A write of a noise-shaping filter changes the field of that filter and no other, and there the
    entries of its run. -/
theorem setShaping_entries (r : ControlRecord) (filter : ShapingFilter) {k order : Nat}
    (hk : k < maxSubframes) (horder : order ≤ maxShapingOrder) (taps : Vector Int16 order) :
    ∃ r', r.setShaping filter k taps = .ok r' ∧
      r.SameButShaping r' filter ∧
      ∀ j (hj : j < shapingBankSize), (r'.shapingTaps filter)[j] =
        if h : k * maxShapingOrder ≤ j ∧ j < k * maxShapingOrder + order then
          taps[j - k * maxShapingOrder]
        else (r.shapingTaps filter)[j] := by
  have hself : ∀ entries, (r.setShapingTaps filter entries).shapingTaps filter = entries :=
    r.filters_setFilters_self (.shaping filter)
  refine ⟨_, r.setShaping_eq_ok filter hk horder taps, ?_, ?_⟩
  · cases filter <;> rfl
  · intro j hj
    rw [hself, Window.getElem_write]
    rfl

theorem setLtp_entries (r : ControlRecord) {k : Nat} (hk : k < maxSubframes)
    (taps : Vector Int16 ltpOrder) :
    ∃ r', r.setLtp k taps = .ok r' ∧ r' = { r with ltpTaps := r'.ltpTaps } ∧
      ∀ j (hj : j < ltpBankSize), r'.ltpTaps[j] =
        if h : k * ltpOrder ≤ j ∧ j < k * ltpOrder + ltpOrder then taps[j - k * ltpOrder]
        else r.ltpTaps[j] := by
  refine ⟨_, r.setLtp_eq_ok hk taps, rfl, ?_⟩
  intro j hj
  rw [Window.getElem_write]
  rfl

/-- A view shows the leading taps of its bank. -/
theorem getElem_view (family : FilterFamily) (k : Fin maxSubframes) {order : Nat}
    (h : order ≤ family.maxOrder) (i : Nat) (hi : i < order) :
    ((Window.ofBank k.isLt h).read (r.filters family))[i] = (r.bank family k)[i] := by
  simp only [bank, Window.getElem_read]
  rfl

theorem Overwritten.shaping (h : Overwritten r writes r') (filter : ShapingFilter) {k order : Nat}
    (hk : k < maxSubframes) (horder : order ≤ maxShapingOrder) :
    ∃ shown original, r'.shaping filter k order = .ok shown ∧
      r.shaping filter k order = .ok original ∧
      ∀ i (hi : i < order),
        shown[i] = (latestTap (.shaping filter) k i writes).getD original[i] := by
  refine ⟨_, _, r'.shaping_eq_ok filter hk horder, r.shaping_eq_ok filter hk horder, ?_⟩
  intro i hi
  have hbank := h.getElem_bank (.shaping filter) ⟨k, hk⟩ i (Nat.lt_of_lt_of_le hi horder)
  rw [← getElem_view (.shaping filter) ⟨k, hk⟩ horder i hi,
    ← getElem_view (.shaping filter) ⟨k, hk⟩ horder i hi] at hbank
  exact hbank

theorem Overwritten.ltp (h : Overwritten r writes r') {k : Nat} (hk : k < maxSubframes) :
    ∃ shown original, r'.ltp k = .ok shown ∧ r.ltp k = .ok original ∧
      ∀ i (hi : i < ltpOrder), shown[i] = (latestTap .ltp k i writes).getD original[i] :=
  ⟨_, _, r'.ltp_eq_ok hk, r.ltp_eq_ok hk, h.getElem_bank .ltp ⟨k, hk⟩⟩

/-- **Views are independent.** A write through a view of a noise-shaping filter or of a long-term
    predictor changes the entries of its run to the values given, and nothing else in the record.
    After any number of them, of whatever orders, every view shows at each tap what the last write
    to that filter that covered the tap has put there, and what the record held if there was none.
    Writes that go to other subframes or other families can change places. -/
theorem views_independent (r : ControlRecord) :
    (∀ filter k order (taps : Vector Int16 order), k < maxSubframes → order ≤ maxShapingOrder →
      ∃ r', r.setShaping filter k taps = .ok r' ∧
        r.SameButShaping r' filter ∧
        ∀ j (hj : j < shapingBankSize), (r'.shapingTaps filter)[j] =
          if h : k * maxShapingOrder ≤ j ∧ j < k * maxShapingOrder + order then
            taps[j - k * maxShapingOrder]
          else (r.shapingTaps filter)[j]) ∧
    (∀ k (taps : Vector Int16 ltpOrder), k < maxSubframes →
      ∃ r', r.setLtp k taps = .ok r' ∧ r' = { r with ltpTaps := r'.ltpTaps } ∧
        ∀ j (hj : j < ltpBankSize), r'.ltpTaps[j] =
          if h : k * ltpOrder ≤ j ∧ j < k * ltpOrder + ltpOrder then taps[j - k * ltpOrder]
          else r.ltpTaps[j]) ∧
    (∀ writes : List Write, (∀ w ∈ writes, w.ThroughView) →
      ∃ r', r.writeAll writes = .ok r' ∧
        (∀ filter k order, k < maxSubframes → order ≤ maxShapingOrder →
          ∃ shown original, r'.shaping filter k order = .ok shown ∧
            r.shaping filter k order = .ok original ∧
            ∀ i (hi : i < order),
              shown[i] = (latestTap (.shaping filter) k i writes).getD original[i]) ∧
        ∀ k < maxSubframes,
          ∃ shown original, r'.ltp k = .ok shown ∧ r.ltp k = .ok original ∧
            ∀ i (hi : i < ltpOrder),
              shown[i] = (latestTap .ltp k i writes).getD original[i]) ∧
    ∀ writes later : List Write, (∀ w ∈ writes, w.ThroughView) → (∀ w ∈ later, w.ThroughView) →
      (∀ w ∈ writes, ∀ w' ∈ later, w.filter? ≠ w'.filter?) →
        r.writeAll (writes ++ later) = r.writeAll (later ++ writes) := by
  refine ⟨?_, ?_, ?_, ?_⟩
  · intro filter k order taps hk horder
    exact r.setShaping_entries filter hk horder taps
  · intro k taps hk
    exact r.setLtp_entries hk taps
  · intro writes h
    obtain ⟨r', hr', hover⟩ := r.writeAll_overwritten h
    exact ⟨r', hr', fun filter _ _ hk horder => hover.shaping filter hk horder,
      fun _ hk => hover.ltp hk⟩
  · intro writes later h h' hapart
    exact r.writeAll_append_comm h h' hapart

/-- A filter of full order, then a shorter one over it, then a view of an order between the two:
    its last taps are of the older filter. The bank next to it keeps what it held. -/
theorem views_independent_of_overlap :
    let r : ControlRecord := { firstShaping := .replicate _ 7, ltpTaps := .replicate _ 3 }
    let writes : List Write :=
      [.shaping .first 1 24 (.replicate _ 5), .shaping .first 1 12 (.replicate _ 9)]
    let later : List Write := [.ltp 1 (.replicate _ 8), .shaping .second 1 2 (.replicate _ (-4))]
    (∀ w ∈ writes, w.ThroughView) ∧ (∀ w ∈ later, w.ThroughView) ∧
      (∀ w ∈ writes, ∀ w' ∈ later, w.filter? ≠ w'.filter?) ∧
      (∃ r', r.setShaping .first 1 (.replicate 24 5) = .ok r' ∧
        r' = { r with firstShaping := r'.firstShaping } ∧
        r'.firstShaping[23] = 7 ∧ r'.firstShaping[24] = 5 ∧ r'.firstShaping[48] = 7) ∧
      (∃ r', r.setLtp 1 (.replicate _ 8) = .ok r' ∧ r' = { r with ltpTaps := r'.ltpTaps } ∧
        r'.ltpTaps[4] = 3 ∧ r'.ltpTaps[9] = 8 ∧ r'.ltpTaps[10] = 3) ∧
      (∃ r' shown, r.writeAll writes = .ok r' ∧ r'.shaping .first 1 16 = .ok shown ∧
        shown[11] = 9 ∧ shown[12] = 5) ∧
      r.writeAll (writes ++ later) = r.writeAll (later ++ writes) := by
  intro r writes later
  have hwrites : ∀ w ∈ writes, w.ThroughView := by decide
  have hlater : ∀ w ∈ later, w.ThroughView := by decide
  have hapart : ∀ w ∈ writes, ∀ w' ∈ later, w.filter? ≠ w'.filter? := by decide
  obtain ⟨hshaping, hltp, hall, hcomm⟩ := views_independent r
  obtain ⟨r₁, hset, hrest, hentries⟩ :=
    hshaping .first 1 24 (.replicate 24 5) (by decide) (by decide)
  obtain ⟨r₂, hset', hrest', hentries'⟩ := hltp 1 (.replicate _ 8) (by decide)
  obtain ⟨r₃, hr₃, hviews, -⟩ := hall writes hwrites
  obtain ⟨shown, original, hshown, -, htaps⟩ := hviews .first 1 16 (by decide) (by decide)
  exact ⟨hwrites, hlater, hapart,
    ⟨r₁, hset, hrest, hentries 23 (by decide), hentries 24 (by decide), hentries 48 (by decide)⟩,
    ⟨r₂, hset', hrest', hentries' 4 (by decide), hentries' 9 (by decide), hentries' 10 (by decide)⟩,
    ⟨r₃, shown, hr₃, hshown, htaps 11 (by decide), htaps 12 (by decide)⟩,
    hcomm writes later hwrites hlater hapart⟩

end ControlRecord

end SpeechFrame
