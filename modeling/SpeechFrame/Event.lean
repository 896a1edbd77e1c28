import SpeechFrame.Config

set_option autoImplicit false

/-! # The log

An encoder reports what it does: changes of layout and refused configurations for debugging, and
the course of each frame for tracing. An `Event` is such a report, and `line` is how it reads in
the log. -/

namespace SpeechFrame

/-- How closely one has to look to see an event. -/
inductive Level where
  | debug
  | trace
  deriving DecidableEq, Repr

def Level.name : Level → String
  | .debug => "DEBUG"
  | .trace => "TRACE"

/-- A report on what an encoder does. -/
inductive Event where
  | configRejected (config : Config) (error : EncodeError)
  | layoutChanged (before after : Layout)
  | channelRestarted (before after : Layout)
  | frameStarted (channel frame subframes : Nat) (gainIndex : Int8)
  /-- Analysis has filled the record; the gains are those of the live subframes. -/
  | frameAnalyzed (channel : Nat) (lambda : Int32) (gains : List Int32)
  | analysisFailed (channel frame : Nat) (error : EncodeError)
  | quantizationFailed (channel frame : Nat) (error : EncodeError)
  deriving DecidableEq, Repr

namespace Event

/-! ## Wording -/

def configText (c : Config) : String :=
  s!"EncoderConfig \x7b n_channels: {c.channels}, fs_khz: {c.rateKHz}, " ++
    s!"packet_size_ms: {c.packetMs}, complexity: {c.complexity} \x7d"

def layoutText (l : Layout) : String :=
  s!"FrameLayout \x7b nb_subfr: {l.subframes}, predict_lpc_order: {l.predictorOrder}, " ++
    s!"shaping_lpc_order: {l.shapingOrder}, subfr_length: {l.subframeSamples} \x7d"

/-- Words in the log, between brackets. -/
def wordsText (ws : List Int32) : String :=
  "[" ++ ", ".intercalate (ws.map fun w => toString w.toInt) ++ "]"

/-- The level at which an event is reported. -/
def level : Event → Level
  | .frameStarted .. | .frameAnalyzed .. => .trace
  | _ => .debug

def message : Event → String
  | .configRejected config error =>
    s!"frame_layout: rejecting {configText config}: {error.message}"
  | .layoutChanged before after =>
    s!"set_layout: {layoutText before} -> {layoutText after}"
  | .channelRestarted before after =>
    s!"reinitialize: {layoutText before} -> {layoutText after}"
  | .frameStarted channel frame subframes gainIndex =>
    s!"encode_frame: channel {channel} frame {frame} " ++
      s!"(nb_subfr={subframes}, last_gain_index={gainIndex.toInt})"
  | .frameAnalyzed channel lambda gains =>
    s!"encode_frame: channel {channel} analysed " ++
      s!"(lambda_q10={lambda.toInt}, gains_q16={wordsText gains})"
  | .analysisFailed channel frame error =>
    s!"encode_frame: analysis failed on channel {channel} frame {frame}: {error.message}"
  | .quantizationFailed channel frame error =>
    s!"encode_frame: quantisation failed on channel {channel} frame {frame}: {error.message}"

/-- The line of an event in the log. -/
def line (e : Event) : String := s!"{e.level.name} {e.message}"

end Event

/-- What the log says when the layout of a configuration is asked for. -/
def Config.layoutEvents (c : Config) : List Event :=
  match c.validate with
  | .ok _ => []
  | .error e => [.configRejected c e]

end SpeechFrame
