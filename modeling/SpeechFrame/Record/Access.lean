import Mathlib.Algebra.Group.Nat.Defs
import SpeechFrame.Record.Operation

set_option autoImplicit false

/-! # Operations step by step

An operation on a record is more than one step for a machine. It works out in words of 64 bits where
its entries lie, takes them from their field if the field has them, and stores new ones one after the
other. `Access` is the type of such programs, and `Operation.steps` is the program of each operation.
Nothing is undone: a program that is stopped half-way leaves the record with all that has been stored
until then. -/

namespace SpeechFrame

/-- What stops a program. -/
inductive Stop where
  /-- The caller has broken a rule. -/
  | fault (fault : Fault)
  /-- An index that no word of 64 bits can hold. -/
  | indexOverflow
  /-- Entries that are not there. -/
  | outOfExtent
  deriving DecidableEq, Repr

/-- A program that works on a record. When it is stopped it keeps what it has done. -/
abbrev Access (α : Type) : Type := EStateM Stop ControlRecord α

namespace Access

section

variable {α β : Type} {r r' : ControlRecord}

theorem run_bind_of_ok {x : Access α} {a : α} (h : x.run r = .ok a r') (f : α → Access β) :
    (x >>= f).run r = (f a).run r' := by
  rw [EStateM.run_bind, h]

theorem run_bind_of_error {x : Access α} {stop : Stop} (h : x.run r = .error stop r')
    (f : α → Access β) : (x >>= f).run r = .error stop r' := by
  rw [EStateM.run_bind, h]

end

theorem run_get (r : ControlRecord) : (get : Access ControlRecord).run r = .ok r r :=
  rfl

/-! ## Single steps -/

/-- Insist on a rule. -/
def require (rule : Prop) [Decidable rule] (fault : Fault) : Access Unit :=
  if rule then pure () else throw (.fault fault)

/-- A number in a word. -/
def word (n : Nat) : Access Nat :=
  if n < 2 ^ 64 then pure n else throw .indexOverflow

/-- Insist that the entries from `start` to before `stop` are among those that there are. -/
def span (extent start stop : Nat) : Access Unit :=
  if start ≤ stop ∧ stop ≤ extent then pure () else throw .outOfExtent

def storeTap (field : TapField) (j : Nat) (tap : Int16) : Access Unit :=
  if h : j < field.extent then modify fun r => r.setTaps field ((r.taps field).set j tap)
  else throw .outOfExtent

def storeWord (field : SubframeField) (k : Nat) (word : Int32) : Access Unit :=
  if h : k < maxSubframes then
    modify fun r => r.setSubframeWords field ((r.subframeWords field).set k word)
  else throw .outOfExtent

section

variable (r : ControlRecord)

theorem run_require_of_pos {rule : Prop} [Decidable rule] (h : rule) (fault : Fault) :
    (require rule fault).run r = .ok () r := by
  rw [require, if_pos h]
  rfl

theorem run_require_of_neg {rule : Prop} [Decidable rule] (h : ¬ rule) (fault : Fault) :
    (require rule fault).run r = .error (.fault fault) r := by
  rw [require, if_neg h]
  rfl

theorem run_word {n : Nat} (h : n < 2 ^ 64) : (word n).run r = .ok n r := by
  rw [word, if_pos h]
  rfl

theorem run_span {extent start stop : Nat} (h : start ≤ stop) (h' : stop ≤ extent) :
    (span extent start stop).run r = .ok () r := by
  rw [span, if_pos ⟨h, h'⟩]
  rfl

theorem run_storeTap (field : TapField) {j : Nat} (h : j < field.extent) (tap : Int16) :
    (storeTap field j tap).run r = .ok () (r.setTaps field ((r.taps field).set j tap)) := by
  rw [storeTap, dif_pos h]
  rfl

theorem run_storeWord (field : SubframeField) {k : Nat} (h : k < maxSubframes) (word : Int32) :
    (storeWord field k word).run r =
      .ok () (r.setSubframeWords field ((r.subframeWords field).set k word)) := by
  rw [storeWord, dif_pos h]
  rfl

end

/-! ## Storing one after the other -/

def storeTaps (field : TapField) (j : Nat) : List Int16 → Access Unit
  | [] => pure ()
  | tap :: rest => do
    storeTap field j tap
    storeTaps field (j + 1) rest

def storeWords (field : SubframeField) (k : Nat) : List Int32 → Access Unit
  | [] => pure ()
  | word :: rest => do
    storeWord field k word
    storeWords field (k + 1) rest

/-- Taps that the field has room for take their places in it. -/
theorem run_storeTaps (field : TapField) {j : Nat} (taps : List Int16) (r : ControlRecord)
    (h : j + taps.length ≤ field.extent) :
    (storeTaps field j taps).run r =
      .ok () (r.setTaps field (overwriteFrom (r.taps field) j taps)) := by
  induction taps generalizing j r with
  | nil =>
    rw [overwriteFrom_nil, ControlRecord.setTaps_self]
    rfl
  | cons tap rest ih =>
    rw [List.length_cons] at h
    have hj : j < field.extent := by omega
    rw [storeTaps, run_bind_of_ok (run_storeTap r field hj tap), ih _ (by omega),
      ControlRecord.taps_setTaps_self, ControlRecord.setTaps_setTaps, overwriteFrom_cons _ hj]

theorem run_storeWords (field : SubframeField) {k : Nat} (words : List Int32) (r : ControlRecord)
    (h : k + words.length ≤ maxSubframes) :
    (storeWords field k words).run r =
      .ok () (r.setSubframeWords field (overwriteFrom (r.subframeWords field) k words)) := by
  induction words generalizing k r with
  | nil =>
    rw [overwriteFrom_nil, ControlRecord.setSubframeWords_self]
    rfl
  | cons word rest ih =>
    rw [List.length_cons] at h
    have hk : k < maxSubframes := by omega
    rw [storeWords, run_bind_of_ok (run_storeWord r field hk word), ih _ (by omega),
      ControlRecord.subframeWords_setSubframeWords, if_pos rfl,
      ControlRecord.setSubframeWords_setSubframeWords, overwriteFrom_cons _ hk]

/-! ## Slices -/

/-- Taps of a field, `length` of them from `start` on, that are known to be there. -/
structure Slice where
  field : TapField
  start : Nat
  length : Nat

/-- The taps of a field from `start` to before `stop`. -/
def slice (field : TapField) (start stop : Nat) : Access Slice := do
  span field.extent start stop
  return ⟨field, start, stop - start⟩

namespace Slice

def read (s : Slice) : Access Reading := do
  let r ← get
  return .taps (((r.taps s.field).toList.drop s.start).take s.length)

def write (s : Slice) (taps : List Int16) : Access Reading := do
  storeTaps s.field s.start taps
  return .nothing

/-- Fill a slice from floating point. There have to be as many numbers as taps. -/
def quantize (lib : Binary.FloatLibrary) (s : Slice) (xs : Array Binary.Value) (q : Nat) :
    Access Reading := do
  require (xs.size = s.length) .lengthMismatch
  s.write (xs.toList.map (Fixed.ofFloat16 lib · q))

end Slice

theorem run_slice (field : TapField) {start stop : Nat} (h : start ≤ stop)
    (h' : stop ≤ field.extent) (r : ControlRecord) :
    (slice field start stop).run r = .ok ⟨field, start, stop - start⟩ r := by
  rw [slice, run_bind_of_ok (run_span r h h')]
  rfl

theorem run_read (s : Slice) (r : ControlRecord) :
    s.read.run r = .ok (.taps (((r.taps s.field).toList.drop s.start).take s.length)) r :=
  rfl

end Access

/-! ## The programs -/

/-- The field that a family of filters is kept in. -/
def FilterFamily.field : FilterFamily → TapField
  | .ltp => .ltpTaps
  | .shaping .first => .firstShaping
  | .shaping .second => .secondShaping

theorem FilterFamily.extent_field (family : FilterFamily) :
    family.field.extent = maxSubframes * family.maxOrder := by
  rcases family with _ | _ | _ <;> rfl

namespace ControlRecord

theorem toList_taps_field (r : ControlRecord) (family : FilterFamily) :
    (r.taps family.field).toList = (r.filters family).toList := by
  rcases family with _ | _ | _ <;> rfl

theorem setTaps_field_overwriteFrom (r : ControlRecord) (family : FilterFamily) (start : Nat)
    (taps : List Int16) :
    r.setTaps family.field (overwriteFrom (r.taps family.field) start taps) =
      r.setFilters family (overwriteFrom (r.filters family) start taps) := by
  rcases family with _ | _ | _ <;> rfl

end ControlRecord

/-- Find the slice of a view. The end of a long-term predictor is where the next one begins; that of
    a noise-shaping filter is counted from its start. -/
def FilterView.slice : FilterView → Access Access.Slice
  | .ltp k => do
    Access.require (k < maxSubframes) .subframeIndex
    let start ← Access.word (k * ltpOrder)
    let next ← Access.word (k + 1)
    let stop ← Access.word (next * ltpOrder)
    Access.slice .ltpTaps start stop
  | .shaping filter k order => do
    Access.require (k < maxSubframes) .subframeIndex
    Access.require (order ≤ maxShapingOrder) .shapingOrder
    let start ← Access.word (k * maxShapingOrder)
    let stop ← Access.word (start + order)
    Access.slice (FilterFamily.shaping filter).field start stop

namespace Access

/-- The field of the predictor that subframe `k` uses. -/
def predictorField (k : Nat) (interpolated : Bool) : Access TapField :=
  match ControlRecord.predictorRow k interpolated with
  | 0 => pure .interpolatedPredictor
  | 1 => pure .framePredictor
  | _ => throw .outOfExtent

def predictor (k order : Nat) (interpolated : Bool) : Access Reading := do
  require (k < maxSubframes) .subframeIndex
  require (order ≤ maxPredictorOrder) .predictionOrder
  let field ← predictorField k interpolated
  let s ← slice field 0 order
  s.read

/-- A word for each subframe that is asked for, in place of zeros. -/
def lowFreqWords (subframes : Nat) : Access Reading := do
  require (subframes ≤ maxSubframes) .subframeCount
  let r ← get
  return .words (fillFrom LowFreqPair.toWord (.replicate maxSubframes 0) 0
    (r.lowFreq.toList.take subframes)).toList

/-- Copy the leading gains one by one, and then keep the gain index. -/
def snapshotGains (subframes : Nat) (gainIndex : Int8) : Access Reading := do
  require (subframes ≤ maxSubframes) .subframeCount
  span maxSubframes 0 subframes
  let r ← get
  storeWords .unquantizedGains 0 (r.gains.toList.take subframes)
  modify fun r => { r with savedGainIndex := gainIndex }
  return .nothing

end Access

/-- The program of an operation. -/
def Operation.steps : Operation → Access Reading
  | .predictor k order interpolated => Access.predictor k order interpolated
  | .read v => do
    let s ← v.slice
    s.read
  | .write v taps => do
    let s ← v.slice
    s.write taps.toList
  | .quantize lib v xs q => do
    let s ← v.slice
    s.quantize lib xs q
  | .lowFreqWords subframes => Access.lowFreqWords subframes
  | .snapshotGains subframes gainIndex => Access.snapshotGains subframes gainIndex

end SpeechFrame
