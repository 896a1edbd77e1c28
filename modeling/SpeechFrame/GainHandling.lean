import SpeechFrame.Record.Write
import SpeechFrame.Stage

set_option autoImplicit false

/-! # How stages handle the gain index

The gain index belongs to the channel, and stages move it on from frame to frame. So that a coding
attempt can be discarded, analysis is expected to take the gain snapshot: the record then keeps the
index as it was, next to the gains, and whoever has the record can roll the index back to that.

Analysis has the gain memory and the record in its hands (`Draft`) and works on both in steps, of
which the snapshot is the only one that reads the one to write the other. A quantiser can change
nothing but the gain memory. `Analysis.TakesSnapshot` and `Quantization.RollsBack` say that a stage
does its part; `Analysis.KeepsFirst` asks for less, and of analysis that may fail. -/

namespace SpeechFrame

/-! ## Changes of the gain index -/

/-- A change that a stage makes to the gain memory when it has a record at hand. -/
inductive GainChange where
  | set (gainIndex : Int8)
  /-- Go back to the gain index that the record has kept. -/
  | rollBack
  deriving DecidableEq, Repr

namespace GainMemory

def change (memory : GainMemory) (r : ControlRecord) : GainChange → GainMemory
  | .set gainIndex => ⟨gainIndex⟩
  | .rollBack => memory.rollBack r

/-- Some changes with the same record at hand, one after the other. -/
def changeAll (memory : GainMemory) (r : ControlRecord) (changes : List GainChange) : GainMemory :=
  changes.foldl (fun memory change => memory.change r change) memory

end GainMemory

/-- Quantisation whose last change to the gain index is to roll it back. -/
def Quantization.RollsBack {σ : Type} (q : Quantization σ) (memory : GainMemory)
    (r : ControlRecord) : Prop :=
  ∃ earlier, q.memory = memory.changeAll r (earlier ++ [.rollBack])

/-! ## The steps of analysis -/

/-- What analysis has in its hands. -/
structure Draft where
  memory : GainMemory
  record : ControlRecord
  deriving DecidableEq, Repr

/-- What analysis has in its hands at first. -/
def Draft.blank (memory : GainMemory) : Draft := { memory, record := .zero }

/-- One thing that analysis does. -/
inductive AnalysisStep where
  | write (w : Write)
  /-- Take the gain snapshot, with the gain index as it stands. -/
  | snapshot (subframes : Nat)
  | change (change : GainChange)

namespace Draft

def work (d : Draft) : AnalysisStep → Except Fault Draft
  | .write w => do
    let record ← d.record.write w
    return { d with record }
  | .snapshot subframes => do
    let record ← d.record.snapshotGains subframes d.memory.gainIndex
    return { d with record }
  | .change change => .ok { d with memory := d.memory.change d.record change }

/-- Some steps, one after the other. -/
def workAll (d : Draft) (steps : List AnalysisStep) : Except Fault Draft :=
  steps.foldlM work d

end Draft

/-! ## What a snapshot keeps -/

/-- A write that leaves the kept gain index alone. -/
def Write.SparesSavedIndex : Write → Prop
  | .savedGainIndex _ | .snapshot _ _ => False
  | _ => True

/-- A write that leaves the kept gains alone. -/
def Write.SparesSavedGains : Write → Prop
  | .subframeWord field _ _ => field ≠ .unquantizedGains
  | .snapshot _ _ => False
  | _ => True

namespace AnalysisStep

/-- A step that leaves the kept gain index alone. -/
def SparesSavedIndex : AnalysisStep → Prop
  | .write w => w.SparesSavedIndex
  | .snapshot _ => False
  | .change _ => True

/-- A step that leaves alone all that a snapshot keeps. -/
def SparesSnapshot : AnalysisStep → Prop
  | .write w => w.SparesSavedIndex ∧ w.SparesSavedGains
  | .snapshot _ => False
  | .change _ => True

/-- A step that leaves the gain index alone. -/
def SparesGainIndex : AnalysisStep → Prop
  | .write _ | .snapshot _ => True
  | .change _ => False

def IsSnapshot (step : AnalysisStep) : Prop :=
  ∃ subframes, step = .snapshot subframes

/-- Steps among which no change to the gain index comes before the first snapshot. -/
def SnapshotFirst (steps : List AnalysisStep) : Prop :=
  ∀ early change late, steps = early ++ .change change :: late →
    ∃ subframes, .snapshot subframes ∈ early

theorem snapshotFirst_nil : SnapshotFirst [] := by
  intro early change late hsteps
  simp at hsteps

theorem snapshotFirst_snapshot_cons (subframes : Nat) (rest : List AnalysisStep) :
    SnapshotFirst (.snapshot subframes :: rest) := by
  intro early change late hsteps
  cases early with
  | nil => cases hsteps
  | cons first others =>
    obtain ⟨rfl, -⟩ := List.cons.inj hsteps
    exact ⟨subframes, List.mem_cons_self⟩

end AnalysisStep

/-! ## Snapshots by analysis -/

/-- Analysis that has done some steps and nothing else. How it ends is left open. -/
def Analysis.ResultsFrom {σ : Type} (a : Analysis σ) (memory : GainMemory) (steps : List AnalysisStep) :
    Prop :=
  (Draft.blank memory).workAll steps = .ok ⟨a.memory, a.record⟩

/-- Analysis that has done some steps and has not changed the gain index before it took a snapshot.
    The kept index it has written in no other way. How it ends is left open. -/
structure Analysis.KeepsFirst {σ : Type} (a : Analysis σ) (memory : GainMemory)
    (steps : List AnalysisStep) : Prop where
  resultsFrom : a.ResultsFrom memory steps
  sparing : ∀ step ∈ steps, step.IsSnapshot ∨ step.SparesSavedIndex
  snapshotFirst : AnalysisStep.SnapshotFirst steps

/-- Analysis that is done and has taken one snapshot, before it changed the gain index; what the
    snapshot keeps it has written in no other way. `taken` is what it had in hand at that moment. -/
structure Analysis.TakesSnapshot {σ : Type} (a : Analysis σ) (memory : GainMemory)
    (subframes : Nat) (taken : Draft) : Prop where
  done : a.verdict = .done
  exists_steps : ∃ before later,
    (∀ step ∈ before, step.SparesSnapshot ∧ step.SparesGainIndex) ∧
    (∀ step ∈ later, step.SparesSnapshot) ∧
    (Draft.blank memory).workAll before = .ok taken ∧
    taken.workAll (.snapshot subframes :: later) = .ok ⟨a.memory, a.record⟩

end SpeechFrame
