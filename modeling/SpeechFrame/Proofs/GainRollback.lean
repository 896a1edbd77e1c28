import SpeechFrame.GainHandling
import SpeechFrame.Proofs.Course
import SpeechFrame.Record.View

set_option autoImplicit false

/-! # Rolling the gain index back

The gain index is in the channel and its snapshot in the record, which every frame begins by
clearing. So the snapshot is good from the moment when it is taken (`savedGainIndex_workAll`): from
there on the record keeps the index as it was, whatever stages do to the channel's, and a quantiser
cannot write the record. Until then the record keeps zero, and rolling back to it would lose the
index rather than recover it. -/

namespace SpeechFrame

/-! ## What steps leave alone -/

namespace ControlRecord

variable {r r' : ControlRecord}

theorem savedGainIndex_write {w : Write} (h : r.write w = .ok r') (hw : w.SparesSavedIndex) :
    r'.savedGainIndex = r.savedGainIndex := by
  cases w with
  | subframeWord field k word => cases h; simp
  | frameWord field word => cases h; simp
  | tap field j tap => cases h; simp
  | lowFreq k pair => cases h; rfl
  | savedGainIndex gainIndex => exact hw.elim
  | ltp k taps => exact (sameButFilters_setLtp h).savedGainIndex_eq
  | shaping filter k order taps => exact (sameButFilters_setShaping h).savedGainIndex_eq
  | snapshot subframes gainIndex => exact hw.elim

theorem unquantizedGains_write {w : Write} (h : r.write w = .ok r') (hw : w.SparesSavedGains) :
    r'.unquantizedGains = r.unquantizedGains := by
  cases w with
  | subframeWord field k word =>
    cases h
    have hother : SubframeField.unquantizedGains ≠ field := Ne.symm hw
    have hwords := r.subframeWords_setSubframeWords field .unquantizedGains
      ((r.subframeWords field).set k word)
    rw [if_neg hother] at hwords
    exact hwords
  | frameWord field word =>
    cases h
    exact subframeWords_setFrameWord r field word .unquantizedGains
  | tap field j tap =>
    cases h
    exact subframeWords_setTaps r field _ .unquantizedGains
  | lowFreq k pair => cases h; rfl
  | savedGainIndex gainIndex => cases h; rfl
  | ltp k taps => exact (sameButFilters_setLtp h).unquantizedGains_eq
  | shaping filter k order taps => exact (sameButFilters_setShaping h).unquantizedGains_eq
  | snapshot subframes gainIndex => exact hw.elim

end ControlRecord

theorem AnalysisStep.SparesSnapshot.sparesSavedIndex {step : AnalysisStep}
    (h : step.SparesSnapshot) : step.SparesSavedIndex := by
  cases step with
  | write w => exact h.1
  | snapshot subframes => exact h.elim
  | change change => trivial

/-- Without a snapshot there is no change that could come after one. -/
theorem AnalysisStep.SnapshotFirst.sparesGainIndex {steps : List AnalysisStep}
    (h : SnapshotFirst steps) (hnone : ∀ step ∈ steps, ¬ step.IsSnapshot) :
    ∀ step ∈ steps, step.SparesGainIndex := by
  intro step hstep
  cases step with
  | write w => trivial
  | snapshot subframes => trivial
  | change change =>
    obtain ⟨early, late, hsplit⟩ := List.append_of_mem hstep
    obtain ⟨subframes, hearly⟩ := h early change late hsplit
    have hmem : .snapshot subframes ∈ steps := by simp [hsplit, hearly]
    exact absurd ⟨subframes, rfl⟩ (hnone _ hmem)

namespace Draft

variable {d d' : Draft}

/-! ## One step -/

theorem work_write_eq_ok {w : Write} (h : d.work (.write w) = .ok d') :
    ∃ r, d.record.write w = .ok r ∧ d' = { d with record := r } := by
  obtain ⟨r, hr, hd⟩ := Fault.exists_of_bind_eq_ok h
  cases hd
  exact ⟨r, hr, rfl⟩

theorem work_snapshot_eq_ok {subframes : Nat} (h : d.work (.snapshot subframes) = .ok d') :
    ∃ hfits : subframes ≤ maxSubframes, d' = { d with record := { d.record with
      unquantizedGains := (Window.leading hfits).write d.record.unquantizedGains
        ((Window.leading hfits).read d.record.gains)
      savedGainIndex := d.memory.gainIndex } } := by
  obtain ⟨r, hr, hd⟩ := Fault.exists_of_bind_eq_ok h
  cases hd
  by_cases hfits : subframes ≤ maxSubframes
  · rw [d.record.snapshotGains_eq_ok hfits] at hr
    cases hr
    exact ⟨hfits, rfl⟩
  · rw [ControlRecord.snapshotGains, dif_neg hfits] at hr
    cases hr

theorem savedGainIndex_work {step : AnalysisStep} (h : d.work step = .ok d')
    (hspares : step.SparesSavedIndex) : d'.record.savedGainIndex = d.record.savedGainIndex := by
  cases step with
  | write w =>
    obtain ⟨r, hr, rfl⟩ := work_write_eq_ok h
    exact ControlRecord.savedGainIndex_write hr hspares
  | snapshot subframes => exact hspares.elim
  | change change => cases h; rfl

theorem unquantizedGains_work {step : AnalysisStep} (h : d.work step = .ok d')
    (hspares : step.SparesSnapshot) :
    d'.record.unquantizedGains = d.record.unquantizedGains := by
  cases step with
  | write w =>
    obtain ⟨r, hr, rfl⟩ := work_write_eq_ok h
    exact ControlRecord.unquantizedGains_write hr hspares.2
  | snapshot subframes => exact hspares.elim
  | change change => cases h; rfl

theorem memory_work {step : AnalysisStep} (h : d.work step = .ok d')
    (hspares : step.SparesGainIndex) : d'.memory = d.memory := by
  cases step with
  | write w =>
    obtain ⟨r, -, rfl⟩ := work_write_eq_ok h
    rfl
  | snapshot subframes =>
    obtain ⟨-, rfl⟩ := work_snapshot_eq_ok h
    rfl
  | change change => exact hspares.elim

/-! ## Any number of steps -/

theorem workAll_cons_eq_ok {step : AnalysisStep} {rest : List AnalysisStep}
    (h : d.workAll (step :: rest) = .ok d') :
    ∃ d₁, d.work step = .ok d₁ ∧ d₁.workAll rest = .ok d' := by
  rw [workAll, List.foldlM_cons] at h
  exact Fault.exists_of_bind_eq_ok h

theorem workAll_append_eq_ok {early late : List AnalysisStep}
    (h : d.workAll (early ++ late) = .ok d') :
    ∃ d₁, d.workAll early = .ok d₁ ∧ d₁.workAll late = .ok d' := by
  rw [workAll, List.foldlM_append] at h
  exact Fault.exists_of_bind_eq_ok h

/-- What every step keeps is kept by all of them. -/
theorem workAll_keeps {α : Type} (f : Draft → α) {P : AnalysisStep → Prop}
    (hwork : ∀ {d d' step}, d.work step = .ok d' → P step → f d' = f d)
    {steps : List AnalysisStep} (h : d.workAll steps = .ok d') (hsteps : ∀ step ∈ steps, P step) :
    f d' = f d := by
  induction steps generalizing d with
  | nil => cases h; rfl
  | cons step rest ih =>
    rw [List.forall_mem_cons] at hsteps
    obtain ⟨d₁, hstep, hrest⟩ := workAll_cons_eq_ok h
    rw [ih hrest hsteps.2, hwork hstep hsteps.1]

/-- From a snapshot on, the record keeps the gain index as it was then. -/
theorem savedGainIndex_workAll {subframes : Nat} {late : List AnalysisStep}
    (h : d.workAll (.snapshot subframes :: late) = .ok d')
    (hlate : ∀ step ∈ late, step.SparesSavedIndex) :
    d'.record.savedGainIndex = d.memory.gainIndex := by
  obtain ⟨kept, hsnapshot, hlater⟩ := workAll_cons_eq_ok h
  obtain ⟨hfits, rfl⟩ := work_snapshot_eq_ok hsnapshot
  exact workAll_keeps (·.record.savedGainIndex) savedGainIndex_work hlater hlate

end Draft

/-! ## Analysis -/

namespace Analysis

variable {σ : Type} {a : Analysis σ} {memory : GainMemory} {steps : List AnalysisStep}

/-- Without a snapshot the record keeps what it was cleared to. -/
theorem ResultsFrom.savedGainIndex_eq_zero (h : a.ResultsFrom memory steps)
    (hspares : ∀ step ∈ steps, step.SparesSavedIndex) : a.record.savedGainIndex = 0 :=
  Draft.workAll_keeps (·.record.savedGainIndex) Draft.savedGainIndex_work h hspares

theorem ResultsFrom.memory_eq (h : a.ResultsFrom memory steps)
    (hspares : ∀ step ∈ steps, step.SparesGainIndex) : a.memory = memory :=
  Draft.workAll_keeps (·.memory) Draft.memory_work h hspares

variable {subframes : Nat} {taken : Draft}

theorem TakesSnapshot.memory_eq (h : a.TakesSnapshot memory subframes taken) :
    taken.memory = memory := by
  obtain ⟨before, later, hbefore, -, htaken, -⟩ := h.exists_steps
  exact Draft.workAll_keeps (·.memory) Draft.memory_work htaken fun step hstep =>
    (hbefore step hstep).2

theorem TakesSnapshot.savedGainIndex_eq (h : a.TakesSnapshot memory subframes taken) :
    a.record.savedGainIndex = memory.gainIndex := by
  obtain ⟨before, later, -, hlater, -, hrest⟩ := h.exists_steps
  rw [← h.memory_eq]
  exact Draft.savedGainIndex_workAll hrest fun step hstep => (hlater step hstep).sparesSavedIndex

/-- The kept gains are those of the moment, and behind them are the zeros of a clear record. -/
theorem TakesSnapshot.getElem_unquantizedGains (h : a.TakesSnapshot memory subframes taken)
    (k : Nat) (hk : k < maxSubframes) :
    a.record.unquantizedGains[k] = if k < subframes then taken.record.gains[k] else 0 := by
  obtain ⟨before, later, hbefore, hlater, htaken, hrest⟩ := h.exists_steps
  have hcleared : taken.record.unquantizedGains = .replicate _ 0 :=
    Draft.workAll_keeps (·.record.unquantizedGains) Draft.unquantizedGains_work htaken
      fun step hstep => (hbefore step hstep).1
  obtain ⟨kept, hsnapshot, hlast⟩ := Draft.workAll_cons_eq_ok hrest
  obtain ⟨hfits, rfl⟩ := Draft.work_snapshot_eq_ok hsnapshot
  have hkept : a.record.unquantizedGains =
      (Window.leading hfits).write taken.record.unquantizedGains
        ((Window.leading hfits).read taken.record.gains) :=
    Draft.workAll_keeps (·.record.unquantizedGains) Draft.unquantizedGains_work hlast hlater
  rw [hkept, Window.getElem_write_read_leading, hcleared, Vector.getElem_replicate]

end Analysis

theorem Quantization.RollsBack.gainIndex_eq {σ : Type} {q : Quantization σ} {memory : GainMemory}
    {r : ControlRecord} (h : q.RollsBack memory r) : q.memory.gainIndex = r.savedGainIndex := by
  obtain ⟨earlier, hmemory⟩ := h
  rw [hmemory, GainMemory.changeAll, List.foldl_append]
  rfl

/-! ## Frames -/

namespace Channel

variable {σ : Type} {c c' : Channel} {index : Nat} {stages : Stages σ} {s : σ}

/-- One frame between the two places where the gain index may be put back. -/
theorem savedGainIndex_encode {subframes : Nat} {taken : Draft}
    (h : (c.analysis index stages s).TakesSnapshot c.memory subframes taken) :
    (c.encode index stages s).after.record.savedGainIndex = c.memory.gainIndex := by
  rw [record_encode, h.savedGainIndex_eq]

theorem gainIndex_encode {subframes : Nat} {taken : Draft}
    (h : (c.analysis index stages s).TakesSnapshot c.memory subframes taken)
    (hback : (c.quantization index stages s).RollsBack (c.analysis index stages s).memory
      (c.analysis index stages s).record) :
    (c.encode index stages s).after.memory.gainIndex = c.memory.gainIndex := by
  rw [memory_encode, if_pos h.done, hback.gainIndex_eq, h.savedGainIndex_eq]

/-- What becomes of a channel by frames that take the gain snapshot, after each of which the gain
    index is rolled back, by the quantiser or by the caller. The layout may change in between. -/
inductive RestoringRun (c : Channel) : Channel → Prop
  | start : RestoringRun c c
  | relayout {c' : Channel} (h : RestoringRun c c') (layout : Layout) :
      RestoringRun c (c'.relayout layout)
  | quantizerRollsBack {σ : Type} {c' : Channel} (h : RestoringRun c c') (index : Nat)
      (stages : Stages σ) (s : σ) {subframes : Nat} {taken : Draft}
      (hsnapshot : (c'.analysis index stages s).TakesSnapshot c'.memory subframes taken)
      (hback : (c'.quantization index stages s).RollsBack (c'.analysis index stages s).memory
        (c'.analysis index stages s).record) :
      RestoringRun c (c'.encode index stages s).after
  | callerRollsBack {σ : Type} {c' : Channel} (h : RestoringRun c c') (index : Nat)
      (stages : Stages σ) (s : σ) {subframes : Nat} {taken : Draft}
      (hsnapshot : (c'.analysis index stages s).TakesSnapshot c'.memory subframes taken) :
      RestoringRun c ((c'.encode index stages s).after.rollBack
        (c'.encode index stages s).after.record)

theorem RestoringRun.gainIndex_eq (h : c.RestoringRun c') :
    c'.memory.gainIndex = c.memory.gainIndex := by
  induction h with
  | start => rfl
  | relayout _ _ ih => exact ih
  | quantizerRollsBack _ index stages s hsnapshot hback ih =>
    rw [gainIndex_encode hsnapshot hback, ih]
  | callerRollsBack _ index stages s hsnapshot ih =>
    rw [← ih]
    exact savedGainIndex_encode hsnapshot

/-- Analysis is called once in a frame, with the gain memory of the channel. -/
theorem memory_of_mem_calls {call : StageCall} (hcall : call ∈ c.calls index stages s)
    (hstage : call.stage = .analyze) : call.memory = c.memory := by
  by_cases hdone : (c.analysis index stages s).verdict = .done
  · rw [(encode_of_analysis_done rfl hdone rfl).1] at hcall
    simp only [List.mem_cons, List.not_mem_nil, or_false] at hcall
    rcases hcall with rfl | rfl
    · rfl
    · cases hstage
  · rw [(encode_of_analysis_stopped rfl hdone).1, List.mem_singleton] at hcall
    rw [hcall]
    rfl

/-- **The gain index is recovered.** When analysis is done and has taken the gain snapshot ahead of
    any change to the gain index, the record keeps that index and the gains of the moment, whatever
    is done to them later, with zeros behind. The channel has its index back after quantisation that
    rolls it back last, however that ends, and otherwise when the caller rolls it back by the
    channel's own record. As long as every frame is of this kind, analysis always begins with the
    same gain index. -/
theorem gainIndex_recovered (c : Channel) :
    (∀ (σ : Type) (index : Nat) (stages : Stages σ) (s : σ) (subframes : Nat) (taken : Draft),
      (c.analysis index stages s).TakesSnapshot c.memory subframes taken →
      let after := (c.encode index stages s).after
      after.record.savedGainIndex = c.memory.gainIndex ∧
      (∀ k (hk : k < maxSubframes), after.record.unquantizedGains[k] =
        if k < subframes then taken.record.gains[k] else 0) ∧
      ((c.quantization index stages s).RollsBack (c.analysis index stages s).memory
          (c.analysis index stages s).record →
        after.memory.gainIndex = c.memory.gainIndex) ∧
      (after.rollBack after.record).memory.gainIndex = c.memory.gainIndex) ∧
    ∀ c', c.RestoringRun c' →
      ∀ (σ : Type) (index : Nat) (stages : Stages σ) (s : σ), ∀ call ∈ c'.calls index stages s,
        call.stage = .analyze → call.memory.gainIndex = c.memory.gainIndex := by
  constructor
  · intro σ index stages s subframes taken h after
    refine ⟨savedGainIndex_encode h, fun k hk => ?_, gainIndex_encode h, savedGainIndex_encode h⟩
    simp only [after, record_encode]
    exact h.getElem_unquantizedGains k hk
  · intro c' hrun σ index stages s call hcall hstage
    rw [memory_of_mem_calls hcall hstage, hrun.gainIndex_eq]

/-- Analysis edits the gains and moves the gain index after its snapshot; quantisation moves it on and
    rolls back, and then fails. The next frame begins where this one did. -/
theorem gainIndex_recovered_of_failed_quantization :
    let c : Channel := { memory := ⟨7⟩, frames := 3 }
    let taken : Draft := ⟨⟨7⟩, ControlRecord.zero.setSubframeWords .gains #v[65536, 0, 0, 0]⟩
    let left : ControlRecord :=
      { gains := #v[1, 0, 0, 0], unquantizedGains := #v[65536, 0, 0, 0], savedGainIndex := 7
        lambda := 1024 }
    let stages : Stages Unit :=
      ⟨fun s _ _ _ => ⟨s, ⟨33⟩, left, .done⟩,
        fun s _ memory r => ⟨s, memory.changeAll r [.set 40, .rollBack], .failed .internal⟩⟩
    let after := (c.encode 0 stages ()).after
    (c.encode 0 stages ()).verdict = .failed .internal ∧
      (c.analysis 0 stages ()).TakesSnapshot ⟨7⟩ 2 taken ∧
      (c.quantization 0 stages ()).RollsBack ⟨33⟩ left ∧ c.RestoringRun after ∧
      after.record.savedGainIndex = 7 ∧
      after.record.unquantizedGains[0] = 65536 ∧ after.record.unquantizedGains[3] = 0 ∧
      after.memory.gainIndex = 7 ∧ (after.rollBack after.record).memory.gainIndex = 7 ∧
      ∀ call ∈ after.calls 0 stages (), call.stage = .analyze → call.memory.gainIndex = 7 := by
  intro c taken left stages after
  have hsnapshot : (c.analysis 0 stages ()).TakesSnapshot ⟨7⟩ 2 taken := by
    refine ⟨rfl, [.write (.subframeWord .gains 0 65536)],
      [.change (.set 33), .write (.subframeWord .gains 0 1), .write (.frameWord .lambda 1024)],
      ?_, ?_, rfl, rfl⟩
    · simp [AnalysisStep.SparesSnapshot, AnalysisStep.SparesGainIndex, Write.SparesSavedIndex,
        Write.SparesSavedGains]
    · simp [AnalysisStep.SparesSnapshot, Write.SparesSavedIndex, Write.SparesSavedGains]
  have hback : (c.quantization 0 stages ()).RollsBack ⟨33⟩ left := ⟨[.set 40], rfl⟩
  have hrun : c.RestoringRun after := .quantizerRollsBack .start 0 stages () hsnapshot hback
  obtain ⟨hframe, hnext⟩ := gainIndex_recovered c
  obtain ⟨hsaved, hgains, hquantizer, hcaller⟩ := hframe Unit 0 stages () 2 taken hsnapshot
  exact ⟨rfl, hsnapshot, hback, hrun, hsaved, hgains 0 (by decide), hgains 3 (by decide),
    hquantizer hback, hcaller, hnext after hrun Unit 0 stages ()⟩

/-! ## Frames that fail -/

/-- **What rolling back recovers.** However a frame ends, rolling back by the record that it leaves
    gives the gain index as it was when the last snapshot was taken. That is the one from before the
    frame, unless analysis has moved it ahead of that snapshot. After a frame that has not come to
    its snapshot there is nothing to be recovered: rolling back gives zero, and a channel whose
    analysis has stopped there still has its gain index. -/
theorem gainIndex_rollBack_encode {steps : List AnalysisStep}
    (h : (c.analysis index stages s).KeepsFirst c.memory steps) :
    let after := (c.encode index stages s).after
    let restored := after.rollBack after.record
    (∀ early subframes late, steps = early ++ .snapshot subframes :: late →
      (∀ step ∈ late, ¬ step.IsSnapshot) →
        (∃ taken, (Draft.blank c.memory).workAll early = .ok taken ∧
          restored.memory.gainIndex = taken.memory.gainIndex) ∧
        ((∀ step ∈ early, step.SparesGainIndex) →
          restored.memory.gainIndex = c.memory.gainIndex)) ∧
    ((∀ step ∈ steps, ¬ step.IsSnapshot) →
      restored.memory.gainIndex = 0 ∧
        ((c.analysis index stages s).verdict ≠ .done → after.memory = c.memory)) := by
  intro after restored
  have hrestored : restored.memory.gainIndex = (c.analysis index stages s).record.savedGainIndex :=
    congrArg (·.savedGainIndex) (c.record_encode index stages s)
  constructor
  · rintro early subframes late rfl hlate
    have hspares : ∀ step ∈ late, step.SparesSavedIndex := by
      intro step hstep
      have hmem : step ∈ early ++ .snapshot subframes :: late := by simp [hstep]
      exact (h.sparing step hmem).resolve_left (hlate step hstep)
    obtain ⟨taken, hearly, hrest⟩ := Draft.workAll_append_eq_ok h.resultsFrom
    have hkept : restored.memory.gainIndex = taken.memory.gainIndex :=
      hrestored.trans (Draft.savedGainIndex_workAll hrest hspares)
    refine ⟨⟨taken, hearly, hkept⟩, fun hunmoved => ?_⟩
    have hmemory : taken.memory = c.memory :=
      Draft.workAll_keeps (·.memory) Draft.memory_work hearly hunmoved
    rw [hkept, hmemory]
  · intro hnone
    have hspares : ∀ step ∈ steps, step.SparesSavedIndex := fun step hstep =>
      (h.sparing step hstep).resolve_left (hnone step hstep)
    refine ⟨hrestored.trans (h.resultsFrom.savedGainIndex_eq_zero hspares), fun hstop => ?_⟩
    have hmemory := c.memory_encode index stages s
    rw [if_neg hstop] at hmemory
    exact hmemory.trans (h.resultsFrom.memory_eq (h.snapshotFirst.sparesGainIndex hnone))

/-- Analysis that takes the snapshot, moves the gain index and then fails. -/
theorem gainIndex_rollBack_encode_of_late_failure :
    let c : Channel := { memory := ⟨7⟩ }
    let steps : List AnalysisStep := [.snapshot 2, .change (.set 33)]
    let stages : Stages Unit :=
      ⟨fun s _ _ _ => ⟨s, ⟨33⟩, { savedGainIndex := 7 }, .failed .internal⟩,
        fun s _ memory _ => ⟨s, memory, .done⟩⟩
    let after := (c.encode 0 stages ()).after
    (c.encode 0 stages ()).verdict = .failed .internal ∧
      (c.analysis 0 stages ()).KeepsFirst c.memory steps ∧
      after.memory.gainIndex = 33 ∧ (after.rollBack after.record).memory.gainIndex = 7 := by
  intro c steps stages after
  have hkeeps : (c.analysis 0 stages ()).KeepsFirst c.memory steps :=
    { resultsFrom := rfl
      sparing := by simp [steps, AnalysisStep.IsSnapshot, AnalysisStep.SparesSavedIndex]
      snapshotFirst := AnalysisStep.snapshotFirst_snapshot_cons 2 _ }
  obtain ⟨hsnapshot, -⟩ := gainIndex_rollBack_encode hkeeps
  obtain ⟨-, hrecovered⟩ := hsnapshot [] 2 [.change (.set 33)] rfl (by simp [AnalysisStep.IsSnapshot])
  exact ⟨rfl, hkeeps, rfl, hrecovered (by simp)⟩

/-- Rolling back does not recover the gain index from every failed frame: analysis may fail before it
    has taken its snapshot. Nor does it from every frame with a snapshot, as another one that comes
    after a move keeps the index as moved. -/
theorem not_recovered_from_every_failed_frame :
    (¬ ∀ (c : Channel) (index : Nat) (stages : Stages Unit) (s : Unit) (error : EncodeError)
      (steps : List AnalysisStep), (c.analysis index stages s).KeepsFirst c.memory steps →
      (c.encode index stages s).verdict = .failed error →
      let after := (c.encode index stages s).after
      (after.rollBack after.record).memory.gainIndex = c.memory.gainIndex) ∧
    ¬ ∀ (c : Channel) (index : Nat) (stages : Stages Unit) (s : Unit) (error : EncodeError)
      (steps : List AnalysisStep), (c.analysis index stages s).KeepsFirst c.memory steps →
      (∃ step ∈ steps, step.IsSnapshot) →
      (c.encode index stages s).verdict = .failed error →
      let after := (c.encode index stages s).after
      (after.rollBack after.record).memory.gainIndex = c.memory.gainIndex := by
  constructor
  · intro hrecovered
    let stages : Stages Unit :=
      ⟨fun s _ memory record => ⟨s, memory, record, .failed .internal⟩,
        fun s _ memory _ => ⟨s, memory, .done⟩⟩
    have hkeeps : ((fresh .full).analysis 0 stages ()).KeepsFirst (fresh .full).memory [] :=
      { resultsFrom := rfl, sparing := by simp, snapshotFirst := AnalysisStep.snapshotFirst_nil }
    exact absurd (hrecovered (fresh .full) 0 stages () .internal [] hkeeps rfl) (by decide)
  · intro hrecovered
    let stages : Stages Unit :=
      ⟨fun s _ _ _ => ⟨s, ⟨33⟩, { savedGainIndex := 33 }, .failed .internal⟩,
        fun s _ memory _ => ⟨s, memory, .done⟩⟩
    let steps : List AnalysisStep := [.snapshot 4, .change (.set 33), .snapshot 4]
    have hkeeps : ((fresh .full).analysis 0 stages ()).KeepsFirst (fresh .full).memory steps :=
      { resultsFrom := rfl
        sparing := by simp [steps, AnalysisStep.IsSnapshot, AnalysisStep.SparesSavedIndex]
        snapshotFirst := AnalysisStep.snapshotFirst_snapshot_cons 4 _ }
    have hsnapshot : ∃ step ∈ steps, step.IsSnapshot := ⟨.snapshot 4, by simp [steps], 4, rfl⟩
    exact absurd (hrecovered (fresh .full) 0 stages () .internal steps hkeeps hsnapshot rfl)
      (by decide)

end Channel

end SpeechFrame
