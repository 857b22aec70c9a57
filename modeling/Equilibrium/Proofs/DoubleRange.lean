/-
The range of doubles.

Rounding a whole number to the nearest double fails if that double is infinite. Whether it is can be
read off the whole number alone:

* `Binary.isInf_ofBits` - the bits of an infinite double;
* `Binary.bitsOfRatio_one_eq_iff` - which whole numbers are given these bits;
* `Number.realOfInt_eq` - so a whole number is in the range of doubles exactly below `Binary.limit`,
  half a step above the largest of them.
-/
import Equilibrium.Number
import Equilibrium.Proofs.DoubleFields

namespace Equilibrium

open Float.Model

namespace Binary

theorem isInf_ofFields {s : UnpackedFloat.Sign} {field fraction : Nat} :
    (ofFields s field fraction).isInf = true ↔ field = 2047 ∧ fraction = 0 := by
  induction field, fraction using fieldCases with
  | infinity => exact iff_of_true rfl ⟨rfl, rfl⟩
  | notANumber fraction hnonzero =>
    rw [ofFields_notANumber hnonzero]
    exact iff_of_false Bool.false_ne_true fun h => hnonzero h.2
  | zero => exact iff_of_false Bool.false_ne_true (by decide)
  | subnormal fraction hnonzero =>
    rw [ofFields_subnormal hnonzero]
    exact iff_of_false Bool.false_ne_true fun h => hnonzero h.2
  | normal field fraction hlast hfirst =>
    rw [ofFields_normal hlast hfirst]
    exact iff_of_false Bool.false_ne_true fun h => hlast h.1

/-- The bits of an infinite double: the largest exponent field and no fraction. -/
theorem isInf_ofBits (bits : UInt64) :
    (Float.ofBits bits).isInf = true ↔ bits.toNat % 2 ^ 63 = 2047 * 2 ^ 52 := by
  show (UnpackedFloat.unpack .binary64 (UnpackedFloat.pack .binary64
    (UnpackedFloat.unpack .binary64 bits.toBitVec))).isInf = true ↔ _
  rw [unpack_eq bits.toBitVec, unpack_pack (Nat.mod_lt _ (by decide)) (Nat.mod_lt _ (by decide)),
    isInf_ofFields]
  show bits.toNat / 2 ^ 52 % 2 ^ 11 = 2047 ∧ bits.toNat % 2 ^ 52 = 0 ↔ _
  omega

theorem roundHalfEven_bounds (num den : Nat) :
    num / den ≤ roundHalfEven num den ∧ roundHalfEven num den ≤ num / den + 1 := by
  simp only [roundHalfEven]
  split
  · omega
  · split <;> omega

/-- A quotient is rounded up to an even number exactly from the midpoint below it on. -/
theorem lt_roundHalfEven (num j : Nat) {k : Nat} (hodd : k % 2 = 1) :
    k < roundHalfEven num (2 ^ (j + 1)) ↔ k * 2 ^ (j + 1) + 2 ^ j ≤ num := by
  have hhalf : 0 < 2 ^ j := Nat.two_pow_pos j
  rw [Nat.pow_succ']
  generalize 2 ^ j = half at *
  have hbounds := roundHalfEven_bounds num (2 * half)
  have hdiv := Nat.div_add_mod' num (2 * half)
  have hmod := Nat.mod_lt num (show 0 < 2 * half by omega)
  rcases Nat.lt_trichotomy (num / (2 * half)) k with hlt | heq | hgt
  · have := Nat.mul_le_mul_right (2 * half) (Nat.succ_le_of_lt hlt)
    rw [Nat.succ_mul] at this
    omega
  · rw [heq] at hdiv
    simp only [roundHalfEven, heq]
    split
    · omega
    · split <;> omega
  · have := Nat.mul_le_mul_right (2 * half) (Nat.succ_le_of_lt hgt)
    rw [Nat.succ_mul] at this
    omega

theorem logRatio_one {n : Nat} (hn : n ≠ 0) : logRatio n 1 = n.log2 := by
  have hself := Nat.log2_self_le hn
  have hone : Nat.log2 1 = 0 := by decide
  simp only [logRatio, hone]
  rw [if_neg]
  · simp
  · simpa using hself

/-- The significand of a whole number before rounding has 53 binary digits. -/
theorem significand_bounds {n : Nat} (hn : n ≠ 0) :
    2 ^ 52 ≤ n * 2 ^ (52 - n.log2) / 2 ^ (n.log2 - 52) ∧
      n * 2 ^ (52 - n.log2) / 2 ^ (n.log2 - 52) < 2 ^ 53 := by
  have hpow : 0 < 2 ^ (n.log2 - 52) := Nat.two_pow_pos _
  have hlow := Nat.mul_le_mul_right (2 ^ (52 - n.log2)) (Nat.log2_self_le hn)
  have hhigh := Nat.mul_lt_mul_of_pos_right (Nat.lt_log2_self (n := n))
    (Nat.two_pow_pos (52 - n.log2))
  rw [← Nat.pow_add] at hlow hhigh
  constructor
  · rw [Nat.le_div_iff_mul_le hpow, ← Nat.pow_add]
    rwa [show 52 + (n.log2 - 52) = n.log2 + (52 - n.log2) by omega]
  · rw [Nat.div_lt_iff_lt_mul hpow, ← Nat.pow_add]
    rwa [show 53 + (n.log2 - 52) = n.log2 + 1 + (52 - n.log2) by omega]

theorem bitsOfRatio_one {n : Nat} (hn : n ≠ 0) :
    bitsOfRatio n 1 = min ((n.log2 + 1022) * 2 ^ 52 +
      roundHalfEven (n * 2 ^ (52 - n.log2)) (2 ^ (n.log2 - 52))) (2047 * 2 ^ 52) := by
  have hexp : max (logRatio n 1 - 52) (-1074) = (n.log2 : Int) - 52 := by
    rw [logRatio_one hn]
    omega
  rw [bitsOfRatio, if_neg hn]
  simp only [hexp, Nat.one_mul, Nat.pow_eq]
  rw [show ((n.log2 : Int) - 52 + 1074).toNat = n.log2 + 1022 by omega,
    show (-((n.log2 : Int) - 52)).toNat = 52 - n.log2 by omega,
    show ((n.log2 : Int) - 52).toNat = n.log2 - 52 by omega]

/-- The bits of a whole number are those of infinity exactly from half a step above the largest
double on. -/
theorem bitsOfRatio_one_eq_iff {n : Nat} :
    bitsOfRatio n 1 = 2047 * 2 ^ 52 ↔ 2 ^ 1024 - 2 ^ 970 ≤ n := by
  rcases Nat.eq_zero_or_pos n with rfl | hn
  · simp only [bitsOfRatio, if_pos]
    omega
  · have hsig := significand_bounds (show n ≠ 0 by omega)
    have hround := roundHalfEven_bounds (n * 2 ^ (52 - n.log2)) (2 ^ (n.log2 - 52))
    rw [bitsOfRatio_one (by omega)]
    rcases Nat.lt_trichotomy n.log2 1023 with hlt | heq | hgt
    · -- the carry out of the significand does not reach the largest exponent field
      have := Nat.lt_of_lt_of_le Nat.lt_log2_self
        (Nat.pow_le_pow_right Nat.two_pos (Nat.succ_le_of_lt hlt))
      omega
    · rw [heq]
      have hcarry := lt_roundHalfEven n 970 (show (2 ^ 53 - 1) % 2 = 1 by decide)
      simp only [Nat.reduceSub, Nat.reduceAdd, Nat.pow_zero, Nat.mul_one] at hcarry ⊢
      omega
    · have := Nat.le_trans (Nat.pow_le_pow_right Nat.two_pos (Nat.succ_le_of_lt hgt))
        (Nat.log2_self_le (show n ≠ 0 by omega))
      omega

/-- Half a step above the largest double. -/
def limit : Nat := 2 ^ 1024 - 2 ^ 970

theorem bitsOfRatio_le (num den : Nat) : bitsOfRatio num den ≤ 2047 * 2 ^ 52 := by
  simp only [bitsOfRatio]
  split
  · omega
  · exact Nat.min_le_right _ _

theorem isInf_ofInt {n : Int} : (ofInt n).isInf = true ↔ limit ≤ n.natAbs := by
  have hbits := bitsOfRatio_le n.natAbs 1
  rw [limit, ofInt, ofRatio, isInf_ofBits, ← bitsOfRatio_one_eq_iff, UInt64.toNat_ofNat']
  generalize bitsOfRatio n.natAbs 1 = bits at *
  rw [Nat.pow_eq]
  -- the sign lies above the bits that decide
  split <;> omega

end Binary

namespace Number

/-- **The range of doubles.** A whole number has a nearest double if it lies less than half a step
above the largest one, and is refused otherwise. -/
theorem realOfInt_eq (n : Int) :
    realOfInt n = if n.natAbs < Binary.limit then .ok (Binary.ofInt n) else .error .overflow := by
  have hinf := Binary.isInf_ofInt (n := n)
  rw [realOfInt]
  split
  · next h => rw [if_neg (Nat.not_lt.mpr (hinf.mp h))]
  · next h => rw [if_pos (Nat.lt_of_not_le fun hle => h (hinf.mpr hle))]

end Number

end Equilibrium
