import SpeechFrame.Proofs.Course

set_option autoImplicit false

/-! # The protocol of the stages

A frame calls analysis and quantisation of the mid channel and then of the side channel, and stops
at the first call that does not end well. `Conducted` says that of a list of exchanges;
`Channel.FrameEffect` says what the calls were handed and what the channel becomes. Together they
are the protocol of a frame (`Encoder.FrameProtocol`), which every frame follows. -/

namespace SpeechFrame

variable {σ : Type}

/-- The stage that a call is for, and the channel. -/
def StageCall.place (call : StageCall) : StageKind × Nat := (call.stage, call.info.channel)

/-- The places of the calls that a frame of one channel makes when nothing stops it. -/
def Channel.callOrder (index : Nat) : List (StageKind × Nat) :=
  [(.analyze, index), (.quantize, index)]

/-- The places of the calls that a frame of so many channels makes when nothing stops it. -/
def callOrder (channels : Nat) : List (StageKind × Nat) :=
  (List.range channels).flatMap Channel.callOrder

/-! ## Order and end of the calls -/

/-- Calls made in an order, up to the first that does not end well, whose verdict is passed on. -/
structure Conducted (order : List (StageKind × Nat)) (t : List Exchange) (v : Verdict) : Prop where
  order_prefix : t.map (·.call.place) <+: order
  done_of_not_last : ∀ x ∈ t.dropLast, x.verdict = .done
  verdict_last : ∃ x, t.getLast? = some x ∧ v = x.verdict
  complete_of_done : v = .done → t.map (·.call.place) = order

namespace Conducted

variable {order later : List (StageKind × Nat)} {t u : List Exchange} {v : Verdict}

theorem all_done (h : Conducted order t .done) : ∀ x ∈ t, x.verdict = .done := by
  obtain ⟨l, hl, hdone⟩ := h.verdict_last
  obtain ⟨firsts, rfl⟩ := List.getLast?_eq_some_iff.1 hl
  intro x hx
  rcases List.mem_append.1 hx with hx | hx
  · exact h.done_of_not_last x (by rwa [List.dropLast_concat])
  · rw [List.mem_singleton.1 hx, hdone]

theorem done_iff (h : Conducted order t v) : v = .done ↔ ∀ x ∈ t, x.verdict = .done := by
  constructor
  · rintro rfl
    exact h.all_done
  · intro hall
    obtain ⟨l, hl, rfl⟩ := h.verdict_last
    exact hall l (List.mem_of_getLast? hl)

/-- Calls that stop early follow every longer order too. -/
theorem append_order (h : Conducted order t v) (hstop : v ≠ .done) :
    Conducted (order ++ later) t v where
  order_prefix := h.order_prefix.trans (List.prefix_append order later)
  done_of_not_last := h.done_of_not_last
  verdict_last := h.verdict_last
  complete_of_done := fun hdone => absurd hdone hstop

/-- Calls that all end well may be followed by others. -/
theorem append (h : Conducted order t .done) (h' : Conducted later u v) :
    Conducted (order ++ later) (t ++ u) v := by
  -- the last call of both is the last of the second, which has one
  have hne : u ≠ [] := by
    rintro rfl
    obtain ⟨x, hx, -⟩ := h'.verdict_last
    cases hx
  refine ⟨?_, ?_, ?_, ?_⟩
  · rw [List.map_append, h.complete_of_done rfl]
    exact (List.prefix_append_right_inj order).2 h'.order_prefix
  · intro x hx
    rw [List.dropLast_append_of_ne_nil hne, List.mem_append] at hx
    rcases hx with hx | hx
    · exact h.all_done x hx
    · exact h'.done_of_not_last x hx
  · obtain ⟨x, hx, hv⟩ := h'.verdict_last
    exact ⟨x, by rw [List.getLast?_append, hx, Option.some_or], hv⟩
  · intro hdone
    rw [List.map_append, h.complete_of_done rfl, h'.complete_of_done hdone]

end Conducted

/-! ## One channel -/

/-- What the calls of a channel were handed, and what has become of the channel: it holds the record
    that analysis left and the gain memory that the last stage left, and it has counted the frame
    if that stage was a quantisation that ended well. -/
structure Channel.FrameEffect (c : Channel) (index : Nat) (t : List Exchange) (c' : Channel) :
    Prop where
  analysis_call : ∀ a ∈ t, a.call.stage = .analyze →
    a.call = ⟨.analyze, ⟨index, c.frames, c.layout⟩, c.memory, .zero⟩
  quantization_call : ∀ a ∈ t, ∀ q ∈ t, a.call.stage = .analyze → q.call.stage = .quantize →
    q.call = ⟨.quantize, ⟨index, c.frames, c.layout⟩, a.memory, a.record⟩
  eq_of_unreached : t = [] → c' = c
  eq_of_reached : ∀ a ∈ t, a.call.stage = .analyze → ∀ x, t.getLast? = some x → c' = { c with
    record := a.record
    memory := x.memory
    frames := if x.call.stage = .quantize ∧ x.verdict = .done then c.frames + 1 else c.frames }

theorem Channel.FrameEffect.unreached (c : Channel) (index : Nat) : c.FrameEffect index [] c where
  analysis_call := fun _ ha => absurd ha List.not_mem_nil
  quantization_call := fun _ ha => absurd ha List.not_mem_nil
  eq_of_unreached := fun _ => rfl
  eq_of_reached := fun _ ha => absurd ha List.not_mem_nil

namespace Channel.Course

variable {c : Channel} {index : Nat} {t : List Exchange} {v : Verdict} {c' : Channel}

theorem conducted (h : c.Course index t v c') (hframes : c.frames < 2 ^ 64 - 1) :
    Conducted (callOrder index) t v := by
  obtain ⟨a, ha, ⟨hstop, rfl, rfl, -⟩ | ⟨hdone, q, hq, rfl, rfl, -⟩⟩ :=
    h.cases_of_frames_lt hframes
  · have hplace : a.call.place = (.analyze, index) := by rw [ha]; rfl
    exact ⟨by simp [callOrder, hplace], by simp, ⟨a, rfl, rfl⟩, fun h => absurd h hstop⟩
  · have hplace : a.call.place = (.analyze, index) := by rw [ha]; rfl
    have hplace' : q.call.place = (.quantize, index) := by rw [hq, Exchange.followUp, ha]; rfl
    exact ⟨by simp [callOrder, hplace, hplace'], by simp [hdone], ⟨q, rfl, rfl⟩,
      fun _ => by simp [callOrder, hplace, hplace']⟩

theorem frameEffect (h : c.Course index t v c') (hframes : c.frames < 2 ^ 64 - 1) :
    c.FrameEffect index t c' := by
  obtain ⟨a, ha, ⟨hstop, rfl, rfl, rfl⟩ | ⟨hdone, q, hq, rfl, rfl, rfl⟩⟩ :=
    h.cases_of_frames_lt hframes
  · have hstage : a.call.stage = .analyze := by rw [ha]; rfl
    constructor
    · simp [ha, opening, nextFrame]
    · simp [hstage]
    · simp
    · simp [hstage]
  · have hstage : a.call.stage = .analyze := by rw [ha]; rfl
    have hstage' : q.call.stage = .quantize := by rw [hq]; rfl
    constructor
    · simp [hstage', ha, opening, nextFrame]
    · simp [hq, ha, Exchange.followUp, opening, nextFrame]
    · simp
    · simp [hstage, hstage']

theorem channel_eq (h : c.Course index t v c') : ∀ x ∈ t, x.call.info.channel = index := by
  cases h with
  | analysisStopped ha => simp [ha, opening, nextFrame]
  | quantizationStopped ha _ hq | counterExhausted ha _ hq | counted ha _ hq =>
    simp [hq, ha, Exchange.followUp, opening, nextFrame]

end Channel.Course

/-! ## The encoder -/

/-- The exchanges about one channel. -/
def exchangesOf (index : Nat) (t : List Exchange) : List Exchange :=
  t.filter (·.call.info.channel = index)

/-- The protocol of a frame of an encoder: exchanges, verdict, encoder afterwards. -/
structure Encoder.FrameProtocol (e : Encoder) (t : List Exchange) (v : Verdict) (e' : Encoder) :
    Prop where
  conducted : Conducted (callOrder e.config.channels) t v
  config_eq : e'.config = e.config
  effect : ∀ index c, e.held index = some c →
    ∃ c', e'.held index = some c' ∧ c.FrameEffect index (exchangesOf index t) c'

theorem exchangesOf_eq_self {index : Nat} {t : List Exchange}
    (h : ∀ x ∈ t, x.call.info.channel = index) : exchangesOf index t = t :=
  List.filter_eq_self.2 fun x hx => decide_eq_true (h x hx)

theorem exchangesOf_eq_nil {index other : Nat} {t : List Exchange} (hne : other ≠ index)
    (h : ∀ x ∈ t, x.call.info.channel = other) : exchangesOf index t = [] :=
  List.filter_eq_nil_iff.2 fun x hx => by simp [h x hx, hne]

theorem Encoder.Course.frameProtocol {e : Encoder} {t : List Exchange} {v : Verdict} {e' : Encoder}
    (h : e.Course t v e') (hchannels : e.config.channels = 1 ∨ e.config.channels = 2)
    (hframes : ∀ index c, e.channel index = .ok (some c) → c.frames < 2 ^ 64 - 1) :
    e.FrameProtocol t v e' := by
  have hle := Config.channels_le hchannels
  have hmidFrames : e.mid.frames < 2 ^ 64 - 1 :=
    hframes 0 e.mid (channel_of_active hle (by omega))
  cases h with
  | midOnly hmid hend =>
    refine ⟨?_, rfl, fun index c hc => ?_⟩
    -- in stereo the calls break off, so the order of both channels is not followed to its end
    · rcases hchannels with hone | htwo
      · rw [hone]
        exact hmid.conducted hmidFrames
      · rw [htwo]
        exact (hmid.conducted hmidFrames).append_order (hend.resolve_left (by omega))
    · match index, hc with
      | 0, rfl =>
        rw [exchangesOf_eq_self hmid.channel_eq]
        exact ⟨_, rfl, hmid.frameEffect hmidFrames⟩
      | 1, rfl =>
        rw [exchangesOf_eq_nil (by decide) hmid.channel_eq]
        exact ⟨_, rfl, .unreached _ _⟩
  | both hmid htwo hside =>
    have hsideFrames : e.side.frames < 2 ^ 64 - 1 :=
      hframes 1 e.side (channel_of_active hle (by omega))
    refine ⟨?_, rfl, fun index c hc => ?_⟩
    · rw [htwo]
      exact (hmid.conducted hmidFrames).append (hside.conducted hsideFrames)
    · rw [exchangesOf, List.filter_append, ← exchangesOf, ← exchangesOf]
      match index, hc with
      | 0, rfl =>
        rw [exchangesOf_eq_self hmid.channel_eq, exchangesOf_eq_nil (by decide) hside.channel_eq,
          List.append_nil]
        exact ⟨_, rfl, hmid.frameEffect hmidFrames⟩
      | 1, rfl =>
        rw [exchangesOf_eq_nil (by decide) hmid.channel_eq, exchangesOf_eq_self hside.channel_eq,
          List.nil_append]
        exact ⟨_, rfl, hside.frameEffect hsideFrames⟩

/-- **Every frame follows the protocol.** The calls are analysis and quantisation of the mid and
    then of the side channel, cut off after the first that does not end well, whose verdict is the
    frame's; and each channel is what the calls about it have made of it. The exchanges are what
    the stages really answer, from the state they were in to the state the frame leaves them in. -/
theorem Encoder.encode_frameProtocol {e : Encoder}
    (hchannels : e.config.channels = 1 ∨ e.config.channels = 2)
    (hframes : ∀ index c, e.channel index = .ok (some c) → c.frames < 2 ^ 64 - 1)
    (stages : Stages σ) (s : σ) :
    let t := e.transcript stages s
    let run := e.encode stages s
    e.FrameProtocol t run.verdict run.after ∧
      (run.verdict = .done ↔ ∀ x ∈ t, x.verdict = .done) ∧
      stages.converse s (e.calls stages s) = (t, run.state) := by
  intro t run
  have hprotocol : e.FrameProtocol t run.verdict run.after :=
    (encode_course hchannels stages s).frameProtocol hchannels hframes
  exact ⟨hprotocol, hprotocol.conducted.done_iff, converse_calls hchannels stages s⟩

/-- Two channels under stages that count their calls and fail in the fourth, which is quantisation
    of the side channel: the mid channel is counted, the side channel is not. -/
theorem Encoder.frameProtocol_of_side_failure :
    let e : Encoder := ⟨{ channels := 2 }, .fresh .full, .fresh .full⟩
    let stages : Stages Nat :=
      ⟨fun n _ memory record => ⟨n + 1, memory, record, .done⟩,
        fun n _ _ _ => ⟨n + 1, ⟨33⟩, if n = 3 then .failed .internal else .done⟩⟩
    let t := e.transcript stages 0
    let run := e.encode stages 0
    (e.config.channels = 1 ∨ e.config.channels = 2) ∧
      (∀ index c, e.channel index = .ok (some c) → c.frames < 2 ^ 64 - 1) ∧
      (t.length = 4 ∧ run.verdict = .failed .internal ∧ run.after.mid.frames = 1 ∧
        run.after.side.frames = 0) ∧
      e.FrameProtocol t run.verdict run.after ∧
      (run.verdict = .done ↔ ∀ x ∈ t, x.verdict = .done) ∧
      stages.converse 0 (e.calls stages 0) = (t, run.state) := by
  intro e stages t run
  have hframes : ∀ index c, e.channel index = .ok (some c) → c.frames < 2 ^ 64 - 1 := by
    intro index c hc
    match index, hc with
    | 0, rfl => decide
    | 1, rfl => decide
  exact ⟨.inr rfl, hframes, ⟨rfl, rfl, rfl, rfl⟩, encode_frameProtocol (.inr rfl) hframes stages 0⟩

end SpeechFrame
