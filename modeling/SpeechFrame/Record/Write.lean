import SpeechFrame.Layout
import SpeechFrame.Record.Field
import SpeechFrame.Record.Subframe

set_option autoImplicit false

/-! # Writing a record

Analysis fills a record in whatever order it likes. A `Write` is one of the things that it can do
to one: put a single entry of a field in place, write the filter of a subframe, or take the gain
snapshot. `ControlRecord.writeAll` does some of them one after the other and ends at the first fault.
`ControlRecord.attemptAll` goes on behind a fault, with the record that the write left alone.

A layout says how much of a record is in use. `Write.Within` singles out the writes that stay
there; `ControlRecord.SameOutside` is what they keep, all the entries that are not in use. -/

namespace SpeechFrame

/-- One thing done to a record. -/
inductive Write where
  | subframeWord (field : SubframeField) (k : Fin maxSubframes) (word : Int32)
  | frameWord (field : FrameField) (word : Int32)
  | tap (field : TapField) (j : Fin field.extent) (tap : Int16)
  | lowFreq (k : Fin maxSubframes) (pair : LowFreqPair)
  | savedGainIndex (gainIndex : Int8)
  /-- The long-term predictor of subframe `k`. -/
  | ltp (k : Nat) (taps : Vector Int16 ltpOrder)
  /-- The first `order` taps of a noise-shaping filter of subframe `k`. -/
  | shaping (filter : ShapingFilter) (k order : Nat) (taps : Vector Int16 order)
  | snapshot (subframes : Nat) (gainIndex : Int8)

namespace ControlRecord

def write (r : ControlRecord) : Write → Except Fault ControlRecord
  | .subframeWord field k word =>
    .ok (r.setSubframeWords field ((r.subframeWords field).set k word k.isLt))
  | .frameWord field word => .ok (r.setFrameWord field word)
  | .tap field j tap => .ok (r.setTaps field ((r.taps field).set j tap j.isLt))
  | .lowFreq k pair => .ok { r with lowFreq := r.lowFreq.set k pair k.isLt }
  | .savedGainIndex gainIndex => .ok { r with savedGainIndex := gainIndex }
  | .ltp k taps => r.setLtp k taps
  | .shaping filter k _ taps => r.setShaping filter k taps
  | .snapshot subframes gainIndex => r.snapshotGains subframes gainIndex

/-- Some writes, one after the other. -/
def writeAll (r : ControlRecord) (writes : List Write) : Except Fault ControlRecord :=
  writes.foldlM write r

theorem writeAll_cons_of_ok {r r' : ControlRecord} {w : Write} (h : r.write w = .ok r')
    (rest : List Write) : r.writeAll (w :: rest) = r'.writeAll rest := by
  rw [writeAll, List.foldlM_cons, h]
  rfl

/-- The record after a write, which is the record as it was if the write is a fault. -/
def attempt (r : ControlRecord) (w : Write) : ControlRecord :=
  match r.write w with
  | .ok r' => r'
  | .error _ => r

def attemptAll (r : ControlRecord) (writes : List Write) : ControlRecord :=
  writes.foldl attempt r

end ControlRecord

/-! ## What the encoder keeps to itself -/

/-- A write to nothing that a decoder needs, whether it is a fault or not. -/
def Write.EncoderOnly : Write → Prop
  | .subframeWord field _ _ => field ≠ .pitchLags ∧ field ≠ .gains
  | .frameWord field _ => field ≠ .ltpScale
  | .tap field _ _ => field = .firstShaping ∨ field = .secondShaping
  | .ltp _ _ => False
  | .lowFreq _ _ | .savedGainIndex _ | .shaping _ _ _ _ | .snapshot _ _ => True

instance (w : Write) : Decidable w.EncoderOnly :=
  match w with
  | .subframeWord _ _ _ => inferInstanceAs (Decidable (_ ∧ _))
  | .frameWord field _ => inferInstanceAs (Decidable (field ≠ .ltpScale))
  | .tap _ _ _ => inferInstanceAs (Decidable (_ ∨ _))
  | .ltp _ _ => inferInstanceAs (Decidable False)
  | .lowFreq _ _ | .savedGainIndex _ | .shaping _ _ _ _ | .snapshot _ _ =>
    inferInstanceAs (Decidable True)

/-! ## The live part of a record -/

/-- Whether entry `j` of a field of taps is in use. Filters lie bank by bank, and of a noise-shaping
    filter only the leading taps of its bank are. -/
def Layout.LiveTap (l : Layout) (field : TapField) (j : Nat) : Prop :=
  match field with
  | .interpolatedPredictor | .framePredictor => j < l.predictorOrder
  | .ltpTaps => j < l.subframes * ltpOrder
  | .firstShaping | .secondShaping =>
    j / maxShapingOrder < l.subframes ∧ j % maxShapingOrder < l.shapingOrder

instance (l : Layout) (field : TapField) (j : Nat) : Decidable (l.LiveTap field j) :=
  match field with
  | .interpolatedPredictor | .framePredictor => inferInstanceAs (Decidable (j < l.predictorOrder))
  | .ltpTaps => inferInstanceAs (Decidable (j < l.subframes * ltpOrder))
  | .firstShaping | .secondShaping => inferInstanceAs (Decidable (_ ∧ _))

/-- A write to nothing but entries that a layout has in use. -/
def Write.Within (l : Layout) : Write → Prop
  | .subframeWord _ k _ | .lowFreq k _ => k < l.subframes
  | .tap field j _ => l.LiveTap field j
  | .frameWord _ _ | .savedGainIndex _ => True
  | .ltp k _ => k < l.subframes
  | .shaping _ k order _ => k < l.subframes ∧ order ≤ l.shapingOrder
  | .snapshot subframes _ => subframes ≤ l.subframes

instance (l : Layout) (w : Write) : Decidable (w.Within l) :=
  match w with
  | .subframeWord _ k _ | .lowFreq k _ => inferInstanceAs (Decidable (k < l.subframes))
  | .tap field j _ => inferInstanceAs (Decidable (l.LiveTap field j))
  | .frameWord _ _ | .savedGainIndex _ => inferInstanceAs (Decidable True)
  | .ltp k _ => inferInstanceAs (Decidable (k < l.subframes))
  | .shaping _ _ _ _ => inferInstanceAs (Decidable (_ ∧ _))
  | .snapshot subframes _ => inferInstanceAs (Decidable (subframes ≤ l.subframes))

/-- Two records with the same entries wherever a layout has nothing in use. -/
structure ControlRecord.SameOutside (l : Layout) (r r' : ControlRecord) : Prop where
  subframeWords : ∀ field k (hk : k < maxSubframes), l.subframes ≤ k →
    (r'.subframeWords field)[k] = (r.subframeWords field)[k]
  lowFreq : ∀ k (hk : k < maxSubframes), l.subframes ≤ k → r'.lowFreq[k] = r.lowFreq[k]
  taps : ∀ (field : TapField) j (hj : j < field.extent), ¬ l.LiveTap field j →
    (r'.taps field)[j] = (r.taps field)[j]

end SpeechFrame
