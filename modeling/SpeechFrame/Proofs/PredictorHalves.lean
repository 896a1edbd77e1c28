import SpeechFrame.Layout
import SpeechFrame.Record.Subframe

set_option autoImplicit false

/-! # Predictors and the halves of a frame

With interpolation a frame has two short-term predictors, and the interpolated one is meant for its
first half. Where the halves meet depends on how many subframes the frame has, which a layout says;
`ControlRecord.predictor` is told the subframe only, and goes by the halves of a full frame. So both
subframes of a short frame get the interpolated predictor. -/

namespace SpeechFrame

/-- The first two subframes are the first half of a frame unless the frame is short, and then they
    are the whole of it. -/
theorem Layout.lt_two_iff {l : Layout} {k : Nat} (hk : k < l.subframes) :
    k < 2 ↔ 2 * k < l.subframes ∨ l.subframes = 2 := by
  have hcount := l.subframes_eq
  omega

namespace ControlRecord

/-- The predictor for subframe `k` by the half of its frame: with interpolation the first half has
    the interpolated predictor, and everything else has the frame's own. -/
def halfPredictor (r : ControlRecord) (l : Layout) (k : Nat) (interpolated : Bool) :
    Vector Int16 maxPredictorOrder :=
  if interpolated ∧ 2 * k < l.subframes then r.interpolatedPredictor else r.framePredictor

variable {l : Layout} {k : Nat}

/-- Every subframe of a layout is shown the leading taps of one of the two predictors. -/
theorem predictor_of_lt (r : ControlRecord) (hk : k < l.subframes) (interpolated : Bool) :
    (r.predictor k l.predictorOrder interpolated).map Vector.toList =
      .ok ((if interpolated ∧ k < 2 then r.interpolatedPredictor
        else r.framePredictor).toList.take l.predictorOrder) := by
  rw [r.predictor_eq_ok (Nat.lt_of_lt_of_le hk l.subframes_le) l.predictorOrder_le, Except.map,
    Window.toList_read]
  rfl

/-- **Predictors and halves.** With interpolation the subframes of a full frame have the
    interpolated predictor in the first half and the frame's own in the second; those of a short frame have the
    interpolated one in both. Without interpolation all have the frame's own. So what a subframe is
    shown belongs to its half, except in the second half of a short frame with interpolation, where
    it does only if the leading taps of the two predictors are the same. -/
theorem predictor_of_half (r : ControlRecord) (hk : k < l.subframes) (interpolated : Bool) :
    (r.predictor k l.predictorOrder interpolated).map Vector.toList =
      .ok ((if interpolated ∧ (2 * k < l.subframes ∨ l.subframes = 2) then r.interpolatedPredictor
        else r.framePredictor).toList.take l.predictorOrder) ∧
    ((r.predictor k l.predictorOrder interpolated).map Vector.toList =
        .ok ((r.halfPredictor l k interpolated).toList.take l.predictorOrder) ↔
      (interpolated = true → l.subframes = 2 → k = 1 →
        r.interpolatedPredictor.toList.take l.predictorOrder =
          r.framePredictor.toList.take l.predictorOrder)) := by
  have hshown := r.predictor_of_lt hk interpolated
  simp only [Layout.lt_two_iff hk] at hshown
  refine ⟨hshown, ?_⟩
  rw [hshown, halfPredictor, Except.ok.injEq]
  by_cases hodd : interpolated = true ∧ l.subframes = 2 ∧ k = 1
  · obtain ⟨hinterpolated, hshort, hsecond⟩ := hodd
    simp [hinterpolated, hshort, hsecond]
  · -- everywhere else both choices are made by the same condition
    have hsame : (interpolated = true ∧ (2 * k < l.subframes ∨ l.subframes = 2)) ↔
        interpolated = true ∧ 2 * k < l.subframes := by
      constructor
      · rintro ⟨hinterpolated, hhalf⟩
        have hplace : ¬ (l.subframes = 2 ∧ k = 1) := fun h => hodd ⟨hinterpolated, h⟩
        exact ⟨hinterpolated, by omega⟩
      · rintro ⟨hinterpolated, hhalf⟩
        exact ⟨hinterpolated, .inl hhalf⟩
    simp only [hsame, true_iff]
    exact fun hinterpolated hshort hsecond => absurd ⟨hinterpolated, hshort, hsecond⟩ hodd

/-- The two subframes of a short frame, whose predictors differ. -/
theorem predictor_of_half_of_short_frame :
    let r : ControlRecord :=
      { interpolatedPredictor := .replicate _ 100, framePredictor := .replicate _ 200 }
    let short : Layout := ⟨2, 10, 12, 40, .inr rfl, .inl rfl, by decide, by decide⟩
    1 < short.subframes ∧
      (r.predictor 1 10 true).map Vector.toList = .ok (List.replicate 10 100) ∧
      (r.predictor 1 10 false).map Vector.toList = .ok (List.replicate 10 200) ∧
      (r.predictor 0 10 true).map Vector.toList =
        .ok ((r.halfPredictor short 0 true).toList.take 10) ∧
      (r.predictor 1 10 true).map Vector.toList ≠
        .ok ((r.halfPredictor short 1 true).toList.take 10) := by
  intro r short
  have hsecond : 1 < short.subframes := by decide
  obtain ⟨hshown, hhalf⟩ := r.predictor_of_half hsecond true
  obtain ⟨hplain, -⟩ := r.predictor_of_half hsecond false
  obtain ⟨-, hfirst⟩ := r.predictor_of_half (show 0 < short.subframes by decide) true
  refine ⟨hsecond, hshown, hplain, hfirst.2 nofun, fun h => ?_⟩
  exact absurd (hhalf.1 h rfl rfl rfl) (by decide)

/-- What a subframe is shown does not always belong to its half of the frame. -/
theorem not_predictor_of_half :
    ¬ ∀ (r : ControlRecord) (l : Layout) (k : Nat), k < l.subframes → ∀ interpolated,
      (r.predictor k l.predictorOrder interpolated).map Vector.toList =
        .ok ((r.halfPredictor l k interpolated).toList.take l.predictorOrder) := by
  intro h
  let r : ControlRecord := { framePredictor := .replicate _ 200 }
  let short : Layout := ⟨2, 10, 12, 40, .inr rfl, .inl rfl, by decide, by decide⟩
  have hsecond : 1 < short.subframes := by decide
  have htaps := (r.predictor_of_lt hsecond true).symm.trans (h r short 1 hsecond true)
  exact absurd (Except.ok.inj htaps) (by decide)

end ControlRecord

end SpeechFrame
