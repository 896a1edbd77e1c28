import Mathlib.Data.Rat.Floor
import SpeechFrame.Proofs.Rescale
import SpeechFrame.Record.Subframe

set_option autoImplicit false

/-! # Words of low-frequency pairs

A word stands for an integer, and so do the coefficients in its halves. On integers the packed word is
the feedback coefficient moved up by 16 places, plus the feed-forward coefficient as it is without
a sign (`toInt_toWord`); the halves of a word are a quotient and a remainder. All that is said here
about packing follows from that by arithmetic, and shows that neither coefficient is ever seen in the
half of the other, whatever their signs. -/

namespace SpeechFrame.LowFreqPair

/-! ## The integer of a word -/

theorem and_lowMask (b : BitVec 32) : b &&& 0xFFFF = (b.setWidth 16).setWidth 32 := by
  apply BitVec.eq_of_toNat_eq
  have hmask : (0xFFFF : BitVec 32).toNat = 2 ^ 16 - 1 := rfl
  rw [BitVec.toNat_and, hmask, Nat.and_two_pow_sub_one_eq_mod, BitVec.toNat_setWidth,
    BitVec.toNat_setWidth]
  omega

/-- The mask takes the sign bits of the lower half away, so the two halves lie side by side. -/
theorem shiftLeft_or_and_lowMask (upper lower : BitVec 16) :
    (upper.signExtend 32 <<< 16) ||| (lower.signExtend 32 &&& 0xFFFF) = upper ++ lower := by
  rw [and_lowMask]
  refine BitVec.eq_of_getLsbD_eq fun i hi => ?_
  rw [BitVec.getLsbD_append]
  by_cases hlower : i < 16
  · simp [BitVec.getElem_signExtend, hlower, show i < 32 from hi]
  · simp [BitVec.getElem_signExtend, hlower, show i < 32 from hi, show i - 16 < 16 by omega]

/-- A shift by sixteen is within the width of the word. -/
theorem smod_sixteen : (16 : Int32).toBitVec.smod 32 = 16#32 := by decide

theorem toBitVec_toWord (p : LowFreqPair) :
    p.toWord.toBitVec = p.feedback.toBitVec ++ p.feedForward.toBitVec := by
  rw [toWord, Int32.toBitVec_or, Int32.toBitVec_and, Int32.toBitVec_shiftLeft, smod_sixteen,
    Int16.toBitVec_toInt32, Int16.toBitVec_toInt32, ← shiftLeft_or_and_lowMask]
  rfl

theorem toInt_toWord (p : LowFreqPair) :
    p.toWord.toInt = p.feedback.toInt * 2 ^ 16 + p.feedForward.toInt % 2 ^ 16 := by
  have hunsigned : (p.feedForward.toBitVec.toNat : Int) = p.feedForward.toInt % 2 ^ 16 := by
    have hbits := p.feedForward.toBitVec.isLt
    rw [← Int16.toInt_toBitVec, BitVec.toInt_eq_toNat_cond]
    split <;> omega
  rw [← Int32.toInt_toBitVec, toBitVec_toWord, BitVec.toInt_append, hunsigned,
    Int16.toInt_toBitVec, if_neg (by decide), mul_comm]
  rfl

theorem toInt_shiftRight_sixteen (w : Int32) : (w >>> 16).toInt = w.toInt / 2 ^ 16 := by
  rw [← Int32.toInt_toBitVec, Int32.toBitVec_shiftRight, smod_sixteen, BitVec.sshiftRight',
    BitVec.toInt_sshiftRight, Int.shiftRight_eq_div_pow, Int32.toInt_toBitVec]
  rfl

theorem toInt_feedback_ofWord (w : Int32) : (ofWord w).feedback.toInt = w.toInt / 2 ^ 16 := by
  have hlow := w.le_toInt
  have hhigh := w.toInt_lt
  rw [ofWord, Int32.toInt_toInt16, toInt_shiftRight_sixteen]
  exact Int.bmod_eq_of_le (by omega) (by omega)

theorem toInt_feedForward_ofWord (w : Int32) :
    (ofWord w).feedForward.toInt = w.toInt.bmod (2 ^ 16) :=
  Int32.toInt_toInt16 w

/-! ## There and back -/

/-- The upper half of a packed word, with its sign, is the feedback coefficient. -/
theorem toWord_shiftRight (p : LowFreqPair) : p.toWord >>> 16 = p.feedback.toInt32 := by
  rw [← Int32.toInt_inj, toInt_shiftRight_sixteen, toInt_toWord, Int16.toInt_toInt32]
  omega

/-- The lower half of a packed word, with its sign, is the feed-forward coefficient. -/
theorem toInt16_toWord (p : LowFreqPair) : p.toWord.toInt16 = p.feedForward := by
  have hlow := p.feedForward.le_toInt
  have hhigh := p.feedForward.toInt_lt
  rw [← Int16.toInt_inj, Int32.toInt_toInt16, toInt_toWord, Int.bmod_def]
  omega

theorem ofWord_toWord (p : LowFreqPair) : ofWord p.toWord = p := by
  rw [ofWord, toWord_shiftRight, toInt16_toWord, Int16.toInt16_toInt32]

theorem toWord_ofWord (w : Int32) : (ofWord w).toWord = w := by
  rw [← Int32.toInt_inj, toInt_toWord, toInt_feedback_ofWord, toInt_feedForward_ofWord,
    Int.bmod_def]
  omega

/-! ## Products -/

/-- With half a word as its factor a product fits 64 bits, and what is left of it fits 32. -/
theorem toInt_scaledProduct (a : Int32) {half : Int64} (hlow : -2 ^ 15 ≤ half.toInt)
    (hhigh : half.toInt < 2 ^ 15) :
    (scaledProduct a half).toInt = ⌊(a.toInt * half.toInt : ℚ) / 2 ^ 16⌋ := by
  have hbound : |a.toInt * half.toInt| ≤ 2 ^ 31 * 2 ^ 15 := by
    have ha : |a.toInt| ≤ 2 ^ 31 := abs_le.2 ⟨a.le_toInt, a.toInt_lt.le⟩
    have hhalf : |half.toInt| ≤ 2 ^ 15 := abs_le.2 ⟨hlow, hhigh.le⟩
    rw [abs_mul]
    gcongr
  obtain ⟨hleast, hgreatest⟩ := abs_le.1 hbound
  have hproduct : (a.toInt64 * half).toInt = a.toInt * half.toInt := by
    rw [Int64.toInt_mul, Int32.toInt_toInt64, Fixed.bmod_eq_self (by omega) (by omega)]
  have hshifted : ((a.toInt64 * half) >>> 16).toInt = a.toInt * half.toInt / 2 ^ 16 := by
    rw [← hproduct]
    exact Fixed.toInt_shiftRight (a.toInt64 * half) (by decide)
  have hfloor : ⌊(a.toInt * half.toInt : ℚ) / 2 ^ 16⌋ = a.toInt * half.toInt / 2 ^ 16 := by
    exact_mod_cast Rat.floor_intCast_div_natCast (a.toInt * half.toInt) (2 ^ 16)
  rw [scaledProduct, Int64.toInt_toInt32, hshifted, hfloor]
  exact Int.bmod_eq_of_le (by omega) (by omega)

theorem toInt_timesUpper (a : Int32) (p : LowFreqPair) :
    (timesUpper a p.toWord).toInt = ⌊(a.toInt * p.feedback.toInt : ℚ) / 2 ^ 16⌋ := by
  have hhalf : (p.toWord >>> 16).toInt64.toInt = p.feedback.toInt := by
    rw [Int32.toInt_toInt64, toWord_shiftRight, Int16.toInt_toInt32]
  rw [timesUpper, toInt_scaledProduct, hhalf]
  · exact hhalf ▸ p.feedback.le_toInt
  · exact hhalf ▸ p.feedback.toInt_lt

theorem toInt_timesLower (a : Int32) (p : LowFreqPair) :
    (timesLower a p.toWord).toInt = ⌊(a.toInt * p.feedForward.toInt : ℚ) / 2 ^ 16⌋ := by
  have hhalf : p.toWord.toInt16.toInt64.toInt = p.feedForward.toInt := by
    rw [Int16.toInt_toInt64, toInt16_toWord]
  rw [timesLower, toInt_scaledProduct, hhalf]
  · exact hhalf ▸ p.feedForward.le_toInt
  · exact hhalf ▸ p.feedForward.toInt_lt

/-! ## Records -/

theorem getElem_lowFreqWords (r : ControlRecord) {subframes : Nat} (h : subframes ≤ maxSubframes) :
    ∃ words, r.lowFreqWords subframes = .ok words ∧
      ∀ k (hk : k < maxSubframes), words[k] = if k < subframes then r.lowFreq[k].toWord else 0 := by
  refine ⟨_, r.lowFreqWords_eq_ok h, fun k hk => ?_⟩
  simp

/-- **Words are faithful.** A pair and its word determine each other, and the halves of the word are
    the two coefficients with their signs. A number that is scaled by a half of the word of two
    saturated coefficients is scaled by the coefficient that belongs there, whatever the other one
    is. The words of a record are those of its live pairs, which can all be had back from them, and
    zero behind. -/
theorem toWord_faithful :
    (∀ p : LowFreqPair, ofWord p.toWord = p ∧
      p.toWord >>> 16 = p.feedback.toInt32 ∧ p.toWord.toInt16 = p.feedForward) ∧
    (∀ word : Int32, (ofWord word).toWord = word) ∧
    (∀ feedback feedForward a : Int32,
      let word := (saturating feedback feedForward).toWord
      (timesLower a word).toInt =
        ⌊(a.toInt * (max (-2 ^ 15) (min feedForward.toInt (2 ^ 15 - 1)) : ℤ) : ℚ) / 2 ^ 16⌋ ∧
      (timesUpper a word).toInt =
        ⌊(a.toInt * (max (-2 ^ 15) (min feedback.toInt (2 ^ 15 - 1)) : ℤ) : ℚ) / 2 ^ 16⌋) ∧
    ∀ (r : ControlRecord) (subframes : Nat), subframes ≤ maxSubframes →
      ∃ words, r.lowFreqWords subframes = .ok words ∧
        ∀ k (hk : k < maxSubframes),
          words[k] = (if k < subframes then r.lowFreq[k].toWord else 0) ∧
            (k < subframes → ofWord words[k] = r.lowFreq[k]) := by
  refine ⟨?_, toWord_ofWord, ?_, ?_⟩
  · intro p
    exact ⟨ofWord_toWord p, toWord_shiftRight p, toInt16_toWord p⟩
  · intro feedback feedForward a word
    rw [← Fixed.toInt_ofIntClamp16, ← Fixed.toInt_ofIntClamp16]
    exact ⟨toInt_timesLower a _, toInt_timesUpper a _⟩
  · intro r subframes h
    obtain ⟨words, hwords, hentries⟩ := getElem_lowFreqWords r h
    refine ⟨words, hwords, fun k hk => ⟨hentries k hk, fun hlive => ?_⟩⟩
    rw [hentries k hk, if_pos hlive, ofWord_toWord]

/-- A negative feed-forward coefficient, coefficients out of range on both sides, and a record of
    which one half is live. -/
theorem toWord_faithful_of_negative_tap :
    let r : ControlRecord := { lowFreq := .replicate _ ⟨12000, -1⟩ }
    let word := (saturating 70000 (-70000)).toWord
    ofWord (toWord ⟨0, -1⟩) = ⟨0, -1⟩ ∧ toWord ⟨0, -1⟩ >>> 16 = 0 ∧
      (ofWord (-65537)).toWord = -65537 ∧
      (timesLower 3 word).toInt = -2 ∧ (timesUpper 3 word).toInt = 1 ∧
      2 ≤ maxSubframes ∧
      ∃ words, r.lowFreqWords 2 = .ok words ∧
        words[1] = toWord ⟨12000, -1⟩ ∧ ofWord words[1] = ⟨12000, -1⟩ ∧ words[2] = 0 := by
  intro r word
  have hlive : 2 ≤ maxSubframes := by decide
  obtain ⟨hpairs, hback, hproducts, hrecords⟩ := toWord_faithful
  obtain ⟨hpair, hupper, -⟩ := hpairs ⟨0, -1⟩
  obtain ⟨hlower, hhigher⟩ := hproducts 70000 (-70000) 3
  obtain ⟨words, hwords, hentries⟩ := hrecords r 2 hlive
  have hlowerFloor : ⌊((3 : ℤ) * (max (-2 ^ 15) (min (-70000) (2 ^ 15 - 1)) : ℤ) : ℚ) / 2 ^ 16⌋ =
      -2 := by norm_num
  have hupperFloor : ⌊((3 : ℤ) * (max (-2 ^ 15) (min 70000 (2 ^ 15 - 1)) : ℤ) : ℚ) / 2 ^ 16⌋ =
      1 := by norm_num
  exact ⟨hpair, hupper, hback (-65537), hlower.trans hlowerFloor, hhigher.trans hupperFloor, hlive,
    words, hwords, (hentries 1 (by decide)).1, (hentries 1 (by decide)).2 (by decide),
    (hentries 2 (by decide)).1⟩

end SpeechFrame.LowFreqPair
