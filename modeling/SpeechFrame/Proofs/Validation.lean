import Mathlib.Tactic.GCongr
import Mathlib.Tactic.Ring
import SpeechFrame.Config

set_option autoImplicit false

/-! # Validation and layout agree

A configuration is looked at twice before a frame can have a layout: as what a user asks for, and
then as extents that a record has to hold. The second look finds nothing that the first has let pass,
so an error is always about the configuration and never about the extents derived from it.

The first look is described by what is wrong for each error alone (`Config.violates`) and by the
order in which errors take precedence (`Config.inspectionOrder`). Behind both looks no sample gets
lost: the frames of a packet hold just the audio that the packet is long. -/

namespace SpeechFrame.Config

/-! ## What is wrong with a configuration -/

/-- What each error says of a configuration, whatever else is wrong with it. No configuration by
    itself is an internal error. -/
def violates (c : Config) : EncodeError → Bool
  | .unsupportedRate => ¬ (c.rateKHz = 8 ∨ c.rateKHz = 12 ∨ c.rateKHz = 16)
  | .unsupportedPacketSize =>
    ¬ (c.packetMs = 10 ∨ c.packetMs = 20 ∨ c.packetMs = 40 ∨ c.packetMs = 60)
  | .invalidComplexity => 10 < c.complexity
  | .invalidChannelCount => ¬ (c.channels = 1 ∨ c.channels = 2)
  | .internal => false

/-- Of several errors the first one here is given. -/
def inspectionOrder : List EncodeError :=
  [.unsupportedRate, .unsupportedPacketSize, .invalidComplexity, .invalidChannelCount]

theorem mem_supportedRates_iff (c : Config) :
    c.rateKHz ∈ supportedRates ↔ c.rateKHz = 8 ∨ c.rateKHz = 12 ∨ c.rateKHz = 16 := by
  simp [supportedRates]

theorem mem_supportedPackets_iff (c : Config) :
    c.packetMs ∈ supportedPackets ↔
      c.packetMs = 10 ∨ c.packetMs = 20 ∨ c.packetMs = 40 ∨ c.packetMs = 60 := by
  simp [supportedPackets]

/-- Validation gives the first error that applies. -/
theorem validate_eq_find? (c : Config) :
    c.validate =
      match inspectionOrder.find? c.violates with
      | some error => .error error
      | none => .ok () := by
  have hchannels : c.channels < 1 ∨ maxChannels < c.channels ↔
      ¬ (c.channels = 1 ∨ c.channels = 2) := by
    simp only [maxChannels]
    omega
  simp only [validate, mem_supportedRates_iff, mem_supportedPackets_iff, maxComplexity, hchannels,
    inspectionOrder, List.find?_cons, List.find?_nil, violates]
  split
  · next hrate => simp [hrate]
  · next hrate =>
    split
    · next hpacket => simp [hrate, hpacket]
    · next hpacket =>
      split
      · next hcomplexity => simp [hrate, hpacket, hcomplexity]
      · next hcomplexity =>
        split
        · next hcount => simp [hrate, hpacket, hcomplexity, hcount]
        · next hcount => simp [hrate, hpacket, hcomplexity, hcount]

theorem validate_eq_error_iff (c : Config) (error : EncodeError) :
    c.validate = .error error ↔ inspectionOrder.find? c.violates = some error := by
  rw [validate_eq_find?]
  cases inspectionOrder.find? c.violates with
  | none => simp
  | some first => simp

/-! ## The layout -/

theorem layout_eq_error_iff (c : Config) (error : EncodeError) :
    c.layout = .error error ↔ c.validate = .error error := by
  refine ⟨fun h => ?_, layout_of_validate_error⟩
  cases hvalidate : c.validate with
  | ok =>
    obtain ⟨layout, hlayout⟩ := exists_layout_of_validate_ok hvalidate
    rw [hlayout] at h
    cases h
  | error other =>
    rw [layout_of_validate_error hvalidate] at h
    cases h
    rfl

theorem validate_ne_internal (c : Config) : c.validate ≠ .error .internal := by
  rw [Ne, validate_eq_error_iff]
  intro hfirst
  have hmem := List.mem_of_find?_eq_some hfirst
  simp [inspectionOrder] at hmem

/-! ## Samples -/

/-- A packet of a supported length is cut into frames without a rest: 10 ms are two subframes, and
    all else is a number of whole frames. -/
theorem packetFrames_mul_subframes {c : Config} (h : c.packetMs ∈ supportedPackets) :
    c.packetFrames * (subframeMs * c.subframes) = c.packetMs := by
  rw [packetFrames, subframes]
  rcases (mem_supportedPackets_iff c).1 h with h | h | h | h <;> rw [h] <;> rfl

/-- **Validation and layout agree.** A configuration gets a layout unless validation refuses it, and
    the error is the same then: the first one that applies, in the order rate, packet size,
    complexity, channels. The extents of an accepted configuration are never refused, its frames have
    a representable number of samples, and those of one packet are the samples of its time. -/
theorem validate_and_layout_agree (c : Config) :
    (∀ error, c.layout = .error error ↔ c.validate = .error error) ∧
    (∀ error, c.validate = .error error ↔ inspectionOrder.find? c.violates = some error) ∧
    c.layout ≠ .error .internal ∧
    (c.validate = .ok () → ∃ layout samples,
      Layout.ofExtents c.subframes c.predictorOrder c.shapingOrder (subframeMs * c.rateKHz) =
        .ok layout ∧
      c.layout = .ok layout ∧ layout.frameSamples = .ok samples ∧
      c.packetFrames * samples = c.packetMs * c.rateKHz ∧ c.packetMs * c.rateKHz < 2 ^ 32) := by
  refine ⟨c.layout_eq_error_iff, c.validate_eq_error_iff, ?_, fun h => ?_⟩
  · rw [Ne, layout_eq_error_iff]
    exact c.validate_ne_internal
  · obtain ⟨hrate, hpacket, -⟩ := (validate_eq_ok_iff c).1 h
    obtain ⟨layout, hlayout⟩ := exists_layout_of_validate_ok h
    have hbuilt := (layout_of_validate_ok h).symm.trans hlayout
    obtain ⟨hsubframes, -, -, hsamples⟩ := Layout.ofExtents_eq_ok_iff.1 hbuilt
    have hrateLe : c.rateKHz ≤ 16 := by
      have := (mem_supportedRates_iff c).1 hrate
      omega
    have hpacketLe : c.packetMs ≤ 60 := by
      have := (mem_supportedPackets_iff c).1 hpacket
      omega
    have hsubframesLe : layout.subframes ≤ 4 := layout.subframes_le
    have hfits : layout.subframeSamples * layout.subframes < 2 ^ 64 :=
      calc layout.subframeSamples * layout.subframes
        _ = 5 * c.rateKHz * layout.subframes := by rw [hsamples]
        _ ≤ 5 * 16 * 4 := by gcongr
        _ < 2 ^ 64 := by decide
    refine ⟨layout, _, hbuilt, hlayout, if_pos hfits, ?_, ?_⟩
    · calc c.packetFrames * (layout.subframeSamples * layout.subframes)
        _ = c.packetFrames * (subframeMs * c.subframes) * c.rateKHz := by
          rw [hsamples, hsubframes]
          ring
        _ = c.packetMs * c.rateKHz := by rw [packetFrames_mul_subframes hpacket]
    · calc c.packetMs * c.rateKHz
        _ ≤ 60 * 16 := by gcongr
        _ < 2 ^ 32 := by decide

/-- A long packet at the middle rate, and a configuration that has everything wrong with it. -/
theorem validate_and_layout_agree_of_long_packet :
    let c : Config := ⟨2, 12, 60, 3⟩
    let refused : Config := ⟨0, 24, 30, 11⟩
    c.validate = .ok () ∧
      (∃ layout samples, c.layout = .ok layout ∧ layout.frameSamples = .ok samples ∧
        c.packetFrames * samples = 60 * 12) ∧
      inspectionOrder.all refused.violates ∧ refused.validate = .error .unsupportedRate ∧
      refused.layout = .error .unsupportedRate := by
  intro c refused
  have hvalid : c.validate = .ok () := rfl
  obtain ⟨-, -, -, haccepted⟩ := validate_and_layout_agree c
  obtain ⟨hlayout, hfirst, -, -⟩ := validate_and_layout_agree refused
  obtain ⟨layout, samples, -, hderived, hframe, hpacket, -⟩ := haccepted hvalid
  have hrefused : refused.validate = .error .unsupportedRate := (hfirst _).2 rfl
  exact ⟨hvalid, ⟨layout, samples, hderived, hframe, hpacket⟩, rfl, hrefused,
    (hlayout _).2 hrefused⟩

end SpeechFrame.Config
