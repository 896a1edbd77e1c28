import SpeechFrame.Encoder

set_option autoImplicit false

/-! # Runs of requests

A caller may ask an encoder for one configuration after the other and is refused some of them.
`Encoder.reconfigureAll` is such a run. What it comes to can be told from the requests alone:
`Config.inForce` is the configuration that they end in, and `Config.Clearing` says that they clear a
channel on the way. Both are followed request by request through their `cons` lemmas. -/

namespace SpeechFrame

/-- Ask for some configurations, one after the other: the answers, and the encoder in the end. A
    refused request leaves the encoder as it is. -/
def Encoder.reconfigureAll (e : Encoder) : List Config → List (Except EncodeError Unit) × Encoder
  | [] => ([], e)
  | config :: rest =>
    match e.reconfigure config with
    | .error error =>
      let others := e.reconfigureAll rest
      (.error error :: others.1, others.2)
    | .ok changed =>
      let others := changed.reconfigureAll rest
      (.ok () :: others.1, others.2)

theorem Encoder.reconfigureAll_cons_of_error {e : Encoder} {config : Config} {error : EncodeError}
    (h : e.reconfigure config = .error error) (rest : List Config) :
    e.reconfigureAll (config :: rest) =
      (.error error :: (e.reconfigureAll rest).1, (e.reconfigureAll rest).2) := by
  rw [reconfigureAll, h]

theorem Encoder.reconfigureAll_cons_of_ok {e changed : Encoder} {config : Config}
    (h : e.reconfigure config = .ok changed) (rest : List Config) :
    e.reconfigureAll (config :: rest) =
      (.ok () :: (changed.reconfigureAll rest).1, (changed.reconfigureAll rest).2) := by
  rw [reconfigureAll, h]

namespace Config

/-- Whether an encoder supports the configuration. -/
def isSupported (c : Config) : Bool := c.validate.isOk

theorem isSupported_of_ok {c : Config} (h : c.validate = .ok ()) : c.isSupported = true := by
  rw [isSupported, h]
  rfl

theorem isSupported_of_error {c : Config} {error : EncodeError} (h : c.validate = .error error) :
    c.isSupported = false := by
  rw [isSupported, h]
  rfl

/-! ## The configuration in force -/

/-- The configuration in force after some requests: the last that is supported, or else the one that
    was in force before. -/
def inForce (c : Config) (requests : List Config) : Config :=
  (requests.filter isSupported).getLastD c

theorem inForce_cons_of_error {config : Config} {error : EncodeError}
    (h : config.validate = .error error) (c : Config) (rest : List Config) :
    c.inForce (config :: rest) = c.inForce rest := by
  rw [inForce, inForce, List.filter_cons_of_neg (by rw [isSupported_of_error h]; decide)]

theorem inForce_cons_of_ok {config : Config} (h : config.validate = .ok ()) (c : Config)
    (rest : List Config) : c.inForce (config :: rest) = config.inForce rest := by
  rw [inForce, inForce, List.filter_cons_of_pos (isSupported_of_ok h), List.getLastD_cons]

/-! ## Reasons to clear a channel -/

/-- Going from one configuration to the next clears the channel of a number. -/
def Clears (c next : Config) (index : Nat) : Prop :=
  next.rateKHz ≠ c.rateKHz ∨ (c.channels ≤ index ∧ index < next.channels)

instance (c next : Config) (index : Nat) : Decidable (c.Clears next index) :=
  inferInstanceAs (Decidable (_ ∨ _))

/-- Some supported one among the requests clears the channel of a number, at its turn. -/
def Clearing (c : Config) (requests : List Config) (index : Nat) : Prop :=
  ∃ before next after, requests = before ++ next :: after ∧ next.validate = .ok () ∧
    (c.inForce before).Clears next index

theorem not_clearing_nil (c : Config) (index : Nat) : ¬ c.Clearing [] index := by
  rintro ⟨before, next, after, heq, -, -⟩
  exact absurd heq (by simp)

theorem clearing_cons_of_error {config : Config} {error : EncodeError}
    (h : config.validate = .error error) (c : Config) (rest : List Config) (index : Nat) :
    c.Clearing (config :: rest) index ↔ c.Clearing rest index := by
  constructor
  · rintro ⟨before, next, after, heq, hvalid, hclears⟩
    cases before with
    | nil =>
      obtain ⟨rfl, rfl⟩ := List.cons.inj heq
      rw [h] at hvalid
      cases hvalid
    | cons first before =>
      obtain ⟨rfl, rfl⟩ := List.cons.inj heq
      rw [inForce_cons_of_error h] at hclears
      exact ⟨before, next, after, rfl, hvalid, hclears⟩
  · rintro ⟨before, next, after, rfl, hvalid, hclears⟩
    rw [← inForce_cons_of_error h] at hclears
    exact ⟨config :: before, next, after, rfl, hvalid, hclears⟩

theorem clearing_cons_of_ok {config : Config} (h : config.validate = .ok ()) (c : Config)
    (rest : List Config) (index : Nat) :
    c.Clearing (config :: rest) index ↔ c.Clears config index ∨ config.Clearing rest index := by
  constructor
  · rintro ⟨before, next, after, heq, hvalid, hclears⟩
    cases before with
    | nil =>
      obtain ⟨rfl, rfl⟩ := List.cons.inj heq
      exact .inl hclears
    | cons first before =>
      obtain ⟨rfl, rfl⟩ := List.cons.inj heq
      rw [inForce_cons_of_ok h] at hclears
      exact .inr ⟨before, next, after, rfl, hvalid, hclears⟩
  · rintro (hclears | ⟨before, next, after, rfl, hvalid, hclears⟩)
    · exact ⟨[], config, rest, rfl, h, hclears⟩
    · rw [← inForce_cons_of_ok h c] at hclears
      exact ⟨config :: before, next, after, rfl, hvalid, hclears⟩

end Config

end SpeechFrame
