import Mathlib.Algebra.Group.Nat.Defs
import SpeechFrame.Layout

set_option autoImplicit false

/-! # The length of a frame

A frame is as long as its subframes together, and the product has to fit a word of 64 bits. A layout
does not promise that: the extents of the records bound its subframes and its filter orders, but of
a subframe's samples nothing is asked except that there are some (`exists_ofExtents_of_pos`). This
file says where the line is. Behind it a frame has no length, while its layout has been accepted
like any other. -/

namespace SpeechFrame.Layout

/-! ## What a layout promises -/

/-- Extents that make a layout make one with subframes of any other length. -/
theorem exists_ofExtents_of_pos {subframes predictorOrder shapingOrder samples : Nat} {l : Layout}
    (h : ofExtents subframes predictorOrder shapingOrder samples = .ok l) {other : Nat}
    (hother : 0 < other) :
    ∃ l', ofExtents subframes predictorOrder shapingOrder other = .ok l' := by
  obtain ⟨rfl, rfl, rfl, -⟩ := ofExtents_eq_ok_iff.1 h
  exact ⟨_, ofExtents_eq_ok l.subframes_valid l.predictorOrder_valid l.shapingOrder_valid hother⟩

/-- The product fits a word if one subframe is shorter than its share of the `2 ^ 64` numbers that
    a word can hold. The share is a whole number, as the subframes are two or four. -/
theorem samples_fit_iff (l : Layout) :
    l.subframeSamples * l.subframes < 2 ^ 64 ↔ l.subframeSamples < 2 ^ 64 / l.subframes := by
  rcases l.subframes_eq with h | h
  · rw [h]
    omega
  · rw [h]
    omega

/-! ## Lengths and words -/

/-- A length is the product of the extents, and the product of the two words is that number too. -/
theorem frameSamples_eq_ok {l : Layout} {n : Nat} (h : l.frameSamples = .ok n) :
    n = l.subframes * l.subframeSamples ∧
      (UInt64.ofNat l.subframeSamples * UInt64.ofNat l.subframes).toNat = n := by
  unfold frameSamples at h
  split at h
  · next hfits =>
    cases h
    refine ⟨Nat.mul_comm _ _, ?_⟩
    rw [UInt64.toNat_mul, UInt64.toNat_ofNat', UInt64.toNat_ofNat', ← Nat.mul_mod,
      Nat.mod_eq_of_lt hfits]
  · cases h

theorem frameSamples_eq_error_iff (l : Layout) :
    l.frameSamples = .error .frameSamples ↔ 2 ^ 64 / l.subframes ≤ l.subframeSamples := by
  rw [← Nat.not_lt, ← samples_fit_iff, frameSamples]
  split
  · next hfits => exact ⟨nofun, fun h => absurd hfits h⟩
  · next hfits => exact ⟨fun _ => hfits, fun _ => rfl⟩

/-- **Which layouts have a length.** Of the layouts that can be built, those have a length whose
    subframes are shorter than their share of `2 ^ 64`: shorter than `2 ^ 62` samples when there are
    four of them, than `2 ^ 63` when there are two. The length is the product of the two
    extents, and the words multiply to it without a carry. For all longer subframes asking for the
    length is a fault, and there is a layout with every one of these lengths. -/
theorem frameSamples_ofExtents {subframes predictorOrder shapingOrder samples : Nat} {l : Layout}
    (h : ofExtents subframes predictorOrder shapingOrder samples = .ok l) :
    (l.frameSamples = .ok (subframes * samples) ↔ samples < 2 ^ 64 / subframes) ∧
    (∀ n, l.frameSamples = .ok n → n = subframes * samples ∧
      (UInt64.ofNat samples * UInt64.ofNat subframes).toNat = n) ∧
    (l.frameSamples = .error .frameSamples ↔ 2 ^ 64 / subframes ≤ samples) ∧
    ∀ longer, 2 ^ 64 / subframes ≤ longer →
      ∃ l', ofExtents subframes predictorOrder shapingOrder longer = .ok l' ∧
        l'.frameSamples = .error .frameSamples := by
  obtain ⟨rfl, rfl, rfl, rfl⟩ := ofExtents_eq_ok_iff.1 h
  refine ⟨?_, fun n hn => frameSamples_eq_ok hn, l.frameSamples_eq_error_iff, ?_⟩
  · rw [← samples_fit_iff, frameSamples, Nat.mul_comm l.subframes]
    split
    · next hfits => exact ⟨fun _ => hfits, fun _ => rfl⟩
    · next hfits => exact ⟨nofun, fun h => absurd h hfits⟩
  · intro longer hlonger
    have hshare : 0 < 2 ^ 64 / l.subframes := by
      rcases l.subframes_eq with hcount | hcount <;> rw [hcount] <;> decide
    obtain ⟨l', hl'⟩ := exists_ofExtents_of_pos h (Nat.lt_of_lt_of_le hshare hlonger)
    obtain ⟨hsubframes, -, -, hsamples⟩ := ofExtents_eq_ok_iff.1 hl'
    refine ⟨l', hl', l'.frameSamples_eq_error_iff.2 ?_⟩
    rw [hsubframes, hsamples]
    exact hlonger

/-- The last length that two subframes can give and the first that they cannot. -/
theorem frameSamples_ofExtents_at_last_length :
    ∃ l l', ofExtents 2 10 12 (2 ^ 63 - 1) = .ok l ∧ l.frameSamples = .ok (2 ^ 64 - 2) ∧
      ofExtents 2 10 12 (2 ^ 63) = .ok l' ∧ l'.frameSamples = .error .frameSamples := by
  have hl : ofExtents 2 10 12 (2 ^ 63 - 1) =
      .ok ⟨2, 10, 12, 2 ^ 63 - 1, .inr rfl, .inl rfl, by decide, by decide⟩ := rfl
  obtain ⟨hlength, -, -, hlonger⟩ := frameSamples_ofExtents hl
  obtain ⟨l', hl', hfault⟩ := hlonger (2 ^ 63) (by decide)
  exact ⟨_, l', hl, hlength.2 (by decide), hl', hfault⟩

/-- Not every layout that can be built has a length, even if its subframes are counted by a word. -/
theorem not_every_layout_has_length :
    ¬ ∀ (subframes predictorOrder shapingOrder samples : Nat) (l : Layout), samples < 2 ^ 64 →
      ofExtents subframes predictorOrder shapingOrder samples = .ok l →
        l.frameSamples = .ok (subframes * samples) := by
  intro hlength
  have hfault : (⟨4, 16, 24, 2 ^ 62, .inl rfl, .inr rfl, by decide, by decide⟩ :
      Layout).frameSamples = .error .frameSamples := rfl
  cases hfault.symm.trans (hlength 4 16 24 (2 ^ 62) _ (by decide) rfl)

end SpeechFrame.Layout
