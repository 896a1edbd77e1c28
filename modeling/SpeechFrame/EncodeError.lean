set_option autoImplicit false

/-! # Encoder errors

The reasons for which a configuration, a layout or a stage of encoding is refused. Each has a
number, which callers use to tell failures apart, and a text. -/

namespace SpeechFrame

inductive EncodeError where
  /-- The internal sampling rate is not 8, 12 or 16 kHz. -/
  | unsupportedRate
  /-- The packet is not 10, 20, 40 or 60 ms long, or a frame has neither two nor four subframes. -/
  | unsupportedPacketSize
  /-- The complexity is above ten. -/
  | invalidComplexity
  /-- A stage failed, or a layout does not fit the record. -/
  | internal
  /-- There are neither one nor two channels. -/
  | invalidChannelCount
  deriving DecidableEq, Repr

namespace EncodeError

/-- The number that stands for an error. -/
def code : EncodeError → Int
  | .unsupportedRate => -102
  | .unsupportedPacketSize => -103
  | .invalidComplexity => -106
  | .internal => -110
  | .invalidChannelCount => -111

/-- The error a number stands for, if it stands for one. -/
def ofCode? : Int → Option EncodeError
  | -102 => some .unsupportedRate
  | -103 => some .unsupportedPacketSize
  | -106 => some .invalidComplexity
  | -110 => some .internal
  | -111 => some .invalidChannelCount
  | _ => none

/-- What an error says, without its number. -/
def text : EncodeError → String
  | .unsupportedRate => "unsupported internal sampling rate"
  | .unsupportedPacketSize => "unsupported packet size"
  | .invalidComplexity => "invalid complexity setting"
  | .internal => "internal encoder error"
  | .invalidChannelCount => "invalid number of channels"

/-- The full report: the text and, in parentheses, the number. -/
def message (e : EncodeError) : String :=
  s!"{e.text} ({e.code})"

theorem ofCode?_code (e : EncodeError) : ofCode? e.code = some e := by
  cases e <;> rfl

end EncodeError

end SpeechFrame
