import SpeechFrame.Record.Write

set_option autoImplicit false

/-! # Views of the filters

There are three filters for each subframe: a long-term predictor and two noise-shaping filters. A
record keeps the filters of one family in one field, where each subframe has a bank for the largest
order; a view is the leading part of a bank.

What a view shows depends on what was written through views before it, and those may have had
other orders. `latestTap` looks it up in the writes alone: it goes back to the last one that
covered the tap. -/

namespace SpeechFrame

/-- The filters that each subframe has one of. -/
inductive FilterFamily where
  | ltp
  | shaping (filter : ShapingFilter)
  deriving DecidableEq, Repr

abbrev FilterFamily.maxOrder : FilterFamily → Nat
  | .ltp => ltpOrder
  | .shaping _ => maxShapingOrder

namespace ControlRecord

/-- The filters of a family, bank by bank. -/
def filters (r : ControlRecord) :
    (family : FilterFamily) → Vector Int16 (maxSubframes * family.maxOrder)
  | .ltp => r.ltpTaps
  | .shaping filter => r.shapingTaps filter

def setFilters (r : ControlRecord) :
    (family : FilterFamily) → Vector Int16 (maxSubframes * family.maxOrder) → ControlRecord
  | .ltp, taps => { r with ltpTaps := taps }
  | .shaping filter, taps => r.setShapingTaps filter taps

theorem filters_setFilters_self (r : ControlRecord) (family : FilterFamily)
    (taps : Vector Int16 (maxSubframes * family.maxOrder)) :
    (r.setFilters family taps).filters family = taps := by
  rcases family with _ | _ | _ <;> rfl

theorem filters_setFilters_of_ne (r : ControlRecord) {family other : FilterFamily}
    (taps : Vector Int16 (maxSubframes * family.maxOrder)) (h : other ≠ family) :
    (r.setFilters family taps).filters other = r.filters other := by
  rcases family with _ | _ | _ <;> rcases other with _ | _ | _ <;> first | rfl | exact absurd rfl h

/-- The bank of one subframe: its filter, and whatever lies behind that. -/
def bank (r : ControlRecord) (family : FilterFamily) (k : Fin maxSubframes) :
    Vector Int16 family.maxOrder :=
  (Window.ofBank k.isLt (Nat.le_refl _)).read (r.filters family)

/-- Two records that differ in nothing but filters. -/
def SameButFilters (r r' : ControlRecord) : Prop :=
  r' = { r with
    ltpTaps := r'.ltpTaps, firstShaping := r'.firstShaping, secondShaping := r'.secondShaping }

/-- Two records that differ in nothing but the first noise-shaping filters, or the second ones. -/
def SameButShaping (r r' : ControlRecord) : ShapingFilter → Prop
  | .first => r' = { r with firstShaping := r'.firstShaping }
  | .second => r' = { r with secondShaping := r'.secondShaping }

theorem sameButFilters_setFilters (r : ControlRecord) (family : FilterFamily)
    (taps : Vector Int16 (maxSubframes * family.maxOrder)) :
    SameButFilters r (r.setFilters family taps) := by
  rcases family with _ | _ | _ <;> rfl

theorem sameButFilters_setLtp {r r' : ControlRecord} {k : Nat} {taps : Vector Int16 ltpOrder}
    (h : r.setLtp k taps = .ok r') : SameButFilters r r' := by
  obtain ⟨w, -, hset⟩ := Fault.exists_of_bind_eq_ok h
  cases hset
  exact r.sameButFilters_setFilters .ltp _

theorem sameButFilters_setShaping {r r' : ControlRecord} {filter : ShapingFilter} {k order : Nat}
    {taps : Vector Int16 order} (h : r.setShaping filter k taps = .ok r') :
    SameButFilters r r' := by
  obtain ⟨w, -, hset⟩ := Fault.exists_of_bind_eq_ok h
  cases hset
  exact r.sameButFilters_setFilters (.shaping filter) _

namespace SameButFilters

variable {r r' r'' : ControlRecord}

theorem refl (r : ControlRecord) : SameButFilters r r := rfl

theorem trans (h : SameButFilters r r') (h' : SameButFilters r' r'') : SameButFilters r r'' := by
  unfold SameButFilters at *
  rw [h', h]

/-- A gain snapshot is no part of a filter. -/
theorem savedGainIndex_eq (h : SameButFilters r r') : r'.savedGainIndex = r.savedGainIndex := by
  rw [h]

theorem unquantizedGains_eq (h : SameButFilters r r') :
    r'.unquantizedGains = r.unquantizedGains := by
  rw [h]

/-- The filters tell such records apart. -/
theorem eq_of_filters_eq (h : SameButFilters r r') (h' : SameButFilters r r'')
    (hfilters : ∀ family, r'.filters family = r''.filters family) : r' = r'' := by
  have hltp : r'.ltpTaps = r''.ltpTaps := hfilters .ltp
  have hfirst : r'.firstShaping = r''.firstShaping := hfilters (.shaping .first)
  have hsecond : r'.secondShaping = r''.secondShaping := hfilters (.shaping .second)
  unfold SameButFilters at *
  rw [h, h', hltp, hfirst, hsecond]

end SameButFilters

end ControlRecord

namespace Write

/-- A write of taps through a view that there is. -/
def ThroughView : Write → Prop
  | .ltp k _ => k < maxSubframes
  | .shaping _ k order _ => k < maxSubframes ∧ order ≤ maxShapingOrder
  | _ => False

instance (w : Write) : Decidable w.ThroughView :=
  match w with
  | .ltp k _ => inferInstanceAs (Decidable (k < maxSubframes))
  | .shaping _ _ _ _ => inferInstanceAs (Decidable (_ ∧ _))
  | .subframeWord _ _ _ | .frameWord _ _ | .tap _ _ _ | .lowFreq _ _ | .savedGainIndex _
  | .snapshot _ _ => inferInstanceAs (Decidable False)

/-- The filter whose taps are written: its family and its subframe. -/
def filter? : Write → Option (FilterFamily × Nat)
  | .ltp k _ => some (.ltp, k)
  | .shaping filter k _ _ => some (.shaping filter, k)
  | _ => none

/-- The new value of a tap, if the write covers it. -/
def tap? (family : FilterFamily) (k i : Nat) : Write → Option Int16
  | .ltp k' taps => if (family, k) = (.ltp, k') then taps[i]? else none
  | .shaping filter k' _ taps => if (family, k) = (.shaping filter, k') then taps[i]? else none
  | _ => none

theorem tap?_of_filter?_ne {family : FilterFamily} {k : Nat} {w : Write}
    (h : w.filter? ≠ some (family, k)) (i : Nat) : w.tap? family k i = none := by
  cases w with
  | ltp k' taps => exact if_neg fun heq => h (congrArg some heq.symm)
  | shaping filter k' order taps => exact if_neg fun heq => h (congrArg some heq.symm)
  | _ => rfl

end Write

/-- The value that a tap was last given by some writes, if one of them covers it. -/
def latestTap (family : FilterFamily) (k i : Nat) (writes : List Write) : Option Int16 :=
  writes.reverse.findSome? (Write.tap? family k i)

theorem latestTap_append (family : FilterFamily) (k i : Nat) (writes later : List Write) :
    latestTap family k i (writes ++ later) =
      (latestTap family k i later).or (latestTap family k i writes) := by
  rw [latestTap, List.reverse_append, List.findSome?_append]
  rfl

/-- Writes to other filters do not count. -/
theorem latestTap_of_filter?_ne {family : FilterFamily} {k : Nat} {writes : List Write}
    (h : ∀ w ∈ writes, w.filter? ≠ some (family, k)) (i : Nat) :
    latestTap family k i writes = none := by
  rw [latestTap, List.findSome?_eq_none_iff]
  intro w hw
  exact Write.tap?_of_filter?_ne (h w (List.mem_reverse.1 hw)) i

end SpeechFrame
