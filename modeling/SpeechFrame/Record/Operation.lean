import SpeechFrame.Record.View

set_option autoImplicit false

/-! # Operations on a record

A stage works on a record subframe by subframe: it takes a view of a filter, to read it or to write
it, asks for a predictor or for the low-frequency words, and keeps the gains.
`ControlRecord.perform` does any of these.

What comes of an operation can be told from a table. `Operation.fault?` is the rule that a call
breaks by its arguments, the first one if there are several. A call that breaks none is answered by
`Operation.reading` and leaves the record as `Operation.effect` says. The table knows nothing of
windows; entries are counted from the front of their field. -/

namespace SpeechFrame

/-! ## Views of filters -/

/-- A view of the long-term predictor of a subframe, or of the leading taps of one of its
    noise-shaping filters. -/
inductive FilterView where
  | ltp (k : Nat)
  | shaping (filter : ShapingFilter) (k order : Nat)
  deriving DecidableEq, Repr

namespace FilterView

abbrev family : FilterView → FilterFamily
  | .ltp _ => .ltp
  | .shaping filter _ _ => .shaping filter

abbrev subframe : FilterView → Nat
  | .ltp k | .shaping _ k _ => k

/-- Taps in the view. -/
abbrev order : FilterView → Nat
  | .ltp _ => ltpOrder
  | .shaping _ _ order => order

/-- Where the view begins in the field of its family. -/
def start (v : FilterView) : Nat := v.subframe * v.family.maxOrder

/-- Why there is no such view. The subframe is looked at first. -/
def fault? (v : FilterView) : Option Fault :=
  if maxSubframes ≤ v.subframe then some .subframeIndex
  else if v.family.maxOrder < v.order then some .shapingOrder
  else none

/-- The run of taps that a view shows. -/
def window : (v : FilterView) → Except Fault (Window (maxSubframes * v.family.maxOrder) v.order)
  | .ltp k => ControlRecord.ltpWindow k
  | .shaping _ k order => ControlRecord.shapingWindow k order

theorem window_eq (v : FilterView) :
    v.window =
      if hk : v.subframe < maxSubframes then
        if h : v.order ≤ v.family.maxOrder then .ok (.ofBank hk h) else .error .shapingOrder
      else .error .subframeIndex := by
  cases v with
  | ltp k =>
    simp only [Nat.le_refl, dite_true]
    rfl
  | shaping filter k order => rfl

/-- The three things that can be said of a view. -/
theorem fault?_cases (v : FilterView) :
    maxSubframes ≤ v.subframe ∧ v.fault? = some .subframeIndex ∨
      v.subframe < maxSubframes ∧ v.family.maxOrder < v.order ∧ v.fault? = some .shapingOrder ∨
      v.subframe < maxSubframes ∧ v.order ≤ v.family.maxOrder ∧ v.fault? = none := by
  rcases Nat.lt_or_ge v.subframe maxSubframes with hk | hk
  · have hnot := Nat.not_le.2 hk
    rcases Nat.lt_or_ge v.family.maxOrder v.order with h | h
    · exact .inr (.inl ⟨hk, h, by rw [fault?, if_neg hnot, if_pos h]⟩)
    · exact .inr (.inr ⟨hk, h, by rw [fault?, if_neg hnot, if_neg (Nat.not_lt.2 h)]⟩)
  · exact .inl ⟨hk, if_pos hk⟩

theorem window_of_fault {v : FilterView} {fault : Fault} (h : v.fault? = some fault) :
    v.window = .error fault := by
  rw [window_eq]
  rcases v.fault?_cases with ⟨hk, hfault⟩ | ⟨hk, horder, hfault⟩ | ⟨-, -, hfault⟩
  · cases hfault.symm.trans h
    rw [dif_neg (Nat.not_lt.2 hk)]
  · cases hfault.symm.trans h
    rw [dif_pos hk, dif_neg (Nat.not_le.2 horder)]
  · cases hfault.symm.trans h

theorem exists_window {v : FilterView} (h : v.fault? = none) :
    ∃ w, v.window = .ok w ∧ w.start = v.start := by
  rw [window_eq]
  rcases v.fault?_cases with ⟨-, hfault⟩ | ⟨-, -, hfault⟩ | ⟨hk, horder, -⟩
  · cases hfault.symm.trans h
  · cases hfault.symm.trans h
  · rw [dif_pos hk, dif_pos horder]
    exact ⟨_, rfl, rfl⟩

end FilterView

namespace ControlRecord

def readView (r : ControlRecord) : (v : FilterView) → Except Fault (Vector Int16 v.order)
  | .ltp k => r.ltp k
  | .shaping filter k order => r.shaping filter k order

def writeView (r : ControlRecord) :
    (v : FilterView) → Vector Int16 v.order → Except Fault ControlRecord
  | .ltp k, taps => r.setLtp k taps
  | .shaping filter k _, taps => r.setShaping filter k taps

/-- Bring taps from floating point into a view. -/
def quantizeView (r : ControlRecord) (lib : Binary.FloatLibrary) (xs : Array Binary.Value)
    (q : Nat) : FilterView → Except Fault ControlRecord
  | .ltp k => r.quantizeLtp lib k xs q
  | .shaping filter k order => r.quantizeShaping lib filter k order xs q

theorem readView_eq_bind (r : ControlRecord) (v : FilterView) :
    r.readView v = v.window >>= fun w => return w.read (r.filters v.family) := by
  cases v <;> rfl

theorem writeView_eq_bind (r : ControlRecord) (v : FilterView) (taps : Vector Int16 v.order) :
    r.writeView v taps = v.window >>= fun w =>
      return r.setFilters v.family (w.write (r.filters v.family) taps) := by
  cases v <;> rfl

theorem quantizeView_eq_bind (r : ControlRecord) (lib : Binary.FloatLibrary) (v : FilterView)
    (xs : Array Binary.Value) (q : Nat) :
    r.quantizeView lib xs q v = v.window >>= fun w =>
      Fixed.ofFloats16 lib (w.read (r.filters v.family)) xs q >>= fun taps =>
        return r.setFilters v.family (w.write (r.filters v.family) taps) := by
  cases v <;> rfl

end ControlRecord

/-! ## Operations -/

inductive Operation where
  | predictor (k order : Nat) (interpolated : Bool)
  | read (v : FilterView)
  | write (v : FilterView) (taps : Vector Int16 v.order)
  | quantize (lib : Binary.FloatLibrary) (v : FilterView) (xs : Array Binary.Value) (q : Nat)
  | lowFreqWords (subframes : Nat)
  | snapshotGains (subframes : Nat) (gainIndex : Int8)

/-- What an operation shows of a record. -/
inductive Reading where
  | taps (taps : List Int16)
  | words (words : List Int32)
  | nothing
  deriving DecidableEq, Repr

/-- Do one operation: what it shows, and the record after it. -/
def ControlRecord.perform (r : ControlRecord) : Operation → Except Fault (Reading × ControlRecord)
  | .predictor k order interpolated =>
    (r.predictor k order interpolated).map fun taps => (.taps taps.toList, r)
  | .read v => (r.readView v).map fun taps => (.taps taps.toList, r)
  | .write v taps => (r.writeView v taps).map fun r' => (.nothing, r')
  | .quantize lib v xs q => (r.quantizeView lib xs q v).map fun r' => (.nothing, r')
  | .lowFreqWords subframes =>
    (r.lowFreqWords subframes).map fun words => (.words words.toList, r)
  | .snapshotGains subframes gainIndex =>
    (r.snapshotGains subframes gainIndex).map fun r' => (.nothing, r')

/-! ## The table -/

section

variable {α : Type} {extent length : Nat}

/-- A window writes from its start on. -/
theorem Window.write_eq_overwriteFrom (w : Window extent length) (v : Vector α extent)
    (entries : Vector α length) : w.write v entries = overwriteFrom v w.start entries.toList := by
  ext j hj
  simp only [getElem_write, getElem_overwriteFrom, Vector.length_toList, Vector.getElem_toList]
  rfl

end

namespace Operation

/-- The rule that a call breaks. A view is looked at before the numbers that are to fill it. -/
def fault? : Operation → Option Fault
  | .predictor k order _ =>
    if maxSubframes ≤ k then some .subframeIndex
    else if maxPredictorOrder < order then some .predictionOrder
    else none
  | .read v | .write v _ => v.fault?
  | .quantize _ v xs _ => v.fault?.or (if xs.size = v.order then none else some .lengthMismatch)
  | .lowFreqWords subframes | .snapshotGains subframes _ =>
    if maxSubframes < subframes then some .subframeCount else none

/-- What a call shows that breaks no rule. -/
def reading (r : ControlRecord) : Operation → Reading
  | .predictor k order interpolated =>
    let row := if interpolated ∧ k < 2 then r.interpolatedPredictor else r.framePredictor
    .taps (row.toList.take order)
  | .read v => .taps (((r.filters v.family).toList.drop v.start).take v.order)
  | .lowFreqWords subframes =>
    .words ((r.lowFreq.toList.take subframes).map LowFreqPair.toWord ++
      List.replicate (maxSubframes - subframes) 0)
  | .write _ _ | .quantize _ _ _ _ | .snapshotGains _ _ => .nothing

/-- The record after a call that breaks no rule. -/
def effect (r : ControlRecord) : Operation → ControlRecord
  | .write v taps =>
    r.setFilters v.family (overwriteFrom (r.filters v.family) v.start taps.toList)
  | .quantize lib v xs q =>
    r.setFilters v.family
      (overwriteFrom (r.filters v.family) v.start (xs.toList.map (Fixed.ofFloat16 lib · q)))
  | .snapshotGains subframes gainIndex =>
    { r with
      unquantizedGains := overwriteFrom r.unquantizedGains 0 (r.gains.toList.take subframes)
      savedGainIndex := gainIndex }
  | .predictor _ _ _ | .read _ | .lowFreqWords _ => r

end Operation

end SpeechFrame
