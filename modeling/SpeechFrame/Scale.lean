set_option autoImplicit false

/-! # Fixed-point scales of the record fields

An integer at scale `q` stands for the real number `n / 2 ^ q`. Each group of fields has its scale
fixed here, so that code which moves a value between fields names the two scales and repeats no
shift amount. -/

namespace SpeechFrame.Scale

/-- Subframe gains, before and after quantisation. -/
def gain : Nat := 16

def predictor : Nat := 12

def ltpTap : Nat := 14

def ltpScale : Nat := 14

/-- Coefficients of the two noise-shaping filters. -/
def shapingTap : Nat := 13

/-- Low-frequency shaping, pre-shaping gain, harmonic boost, tilt and harmonic shape gain. -/
def shaping : Nat := 14

/-- The rate/distortion trade-off. -/
def lambda : Nat := 10

def quality : Nat := 14

def sparseness : Nat := 8

def predictionGain : Nat := 16

def ltpCodingGain : Nat := 7

/-- The number one at scale `q`, for a scale below the width of a word. -/
def one (q : Nat) : Int32 := 1 <<< Int32.ofNat q

end SpeechFrame.Scale
