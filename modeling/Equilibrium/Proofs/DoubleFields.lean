/-
The fields of a double.

A double is a sign, an exponent field and a fraction. The largest field is that of the infinities
and of what is not a number, the smallest one that of zero and of the subnormal numbers; all other
numbers have a leading one before their fraction.

* `Binary.ofFields`, `Binary.fieldCases` - what the fields of a double stand for, case by case;
* `Binary.unpack_eq`, `Binary.unpack_packComponents` - reading a pattern is reading its fields;
* `Binary.pack_ofFields`, `Binary.unpack_pack` - packing writes the fields, so what is packed is
  read again as it was.
-/
import Mathlib.Algebra.Group.Nat.Defs

namespace Equilibrium.Binary

open Float.Model

variable {s : UnpackedFloat.Sign} {field fraction m : Nat} {e : Int} {hm : 0 < m}

/-- What a sign, an exponent field and a fraction stand for. -/
def ofFields (s : UnpackedFloat.Sign) (field fraction : Nat) : UnpackedFloat :=
  if field = 2047 then
    if fraction = 0 then .infinity s else .notANumber
  else if field = 0 then
    if h : fraction = 0 then .zero s else .finite s fraction (-1074) (Nat.pos_of_ne_zero h)
  else .finite s (fraction + 2 ^ 52) (field - 1075) (Nat.add_pos_right _ (Nat.two_pow_pos 52))

theorem ofFields_infinity : ofFields s 2047 0 = .infinity s := rfl

theorem ofFields_notANumber (h : fraction ≠ 0) : ofFields s 2047 fraction = .notANumber := if_neg h

theorem ofFields_zero : ofFields s 0 0 = .zero s := rfl

theorem ofFields_subnormal (h : fraction ≠ 0) :
    ofFields s 0 fraction = .finite s fraction (-1074) (Nat.pos_of_ne_zero h) := dif_neg h

theorem ofFields_normal (hlast : field ≠ 2047) (hfirst : field ≠ 0) :
    ofFields s field fraction =
      .finite s (fraction + 2 ^ 52) (field - 1075)
        (Nat.add_pos_right _ (Nat.two_pow_pos 52)) := by
  rw [ofFields, if_neg hlast, if_neg hfirst]

/-- The kinds of doubles. -/
@[elab_as_elim]
theorem fieldCases {motive : Nat → Nat → Prop} (field fraction : Nat) (infinity : motive 2047 0)
    (notANumber : ∀ fraction, fraction ≠ 0 → motive 2047 fraction) (zero : motive 0 0)
    (subnormal : ∀ fraction, fraction ≠ 0 → motive 0 fraction)
    (normal : ∀ field fraction, field ≠ 2047 → field ≠ 0 → motive field fraction) :
    motive field fraction := by
  by_cases hlast : field = 2047
  · subst hlast
    by_cases hzero : fraction = 0
    · subst hzero
      exact infinity
    · exact notANumber fraction hzero
  · by_cases hfirst : field = 0
    · subst hfirst
      by_cases hzero : fraction = 0
      · subst hzero
        exact zero
      · exact subnormal fraction hzero
    · exact normal field fraction hlast hfirst

/-- The sign of a pattern. -/
def signOf (b : BitVec 64) : UnpackedFloat.Sign := .ofBitVec (@UnpackedFloat.unpackSign .binary64 b)

/-! ### Reading -/

theorem toNat_unpackExponent (b : BitVec 64) :
    (@UnpackedFloat.unpackExponent .binary64 b).toNat = b.toNat / 2 ^ 52 % 2 ^ 11 := by
  rw [UnpackedFloat.unpackExponent, BitVec.toNat_cast, BitVec.extractLsb_toNat,
    Nat.shiftRight_eq_div_pow]
  rfl

theorem toNat_unpackMantissa (b : BitVec 64) :
    (@UnpackedFloat.unpackMantissa .binary64 b).toNat = b.toNat % 2 ^ 52 := by
  rw [UnpackedFloat.unpackMantissa, BitVec.toNat_cast, BitVec.extractLsb_toNat,
    Nat.shiftRight_eq_div_pow, Nat.pow_zero, Nat.div_one]
  rfl

theorem toNat_leading_one (m : BitVec 52) : (1#1 ++ m).toNat = m.toNat + 2 ^ 52 := by
  rw [BitVec.toNat_append, ← Nat.shiftLeft_add_eq_or_of_lt m.isLt, Nat.add_comm]
  rfl

theorem finite_congr {n : Nat} {f : Int} {hn : 0 < n} (hmn : m = n) (hef : e = f) :
    UnpackedFloat.finite s m e hm = .finite s n f hn := by
  subst hmn hef
  rfl

theorem unpack_eq (b : BitVec 64) :
    UnpackedFloat.unpack .binary64 b =
      ofFields (signOf b) (b.toNat / 2 ^ 52 % 2 ^ 11) (b.toNat % 2 ^ 52) := by
  -- the tests on the fields are tests on the numbers that they stand for
  have hall : @UnpackedFloat.unpackExponent .binary64 b = -1#11 ↔
      (@UnpackedFloat.unpackExponent .binary64 b).toNat = 2047 := BitVec.toNat_inj.symm
  have hnone : @UnpackedFloat.unpackExponent .binary64 b = 0#11 ↔
      (@UnpackedFloat.unpackExponent .binary64 b).toNat = 0 := BitVec.toNat_inj.symm
  have hzero : @UnpackedFloat.unpackMantissa .binary64 b = 0#52 ↔
      (@UnpackedFloat.unpackMantissa .binary64 b).toNat = 0 := BitVec.toNat_inj.symm
  rw [← toNat_unpackExponent, ← toNat_unpackMantissa]
  delta UnpackedFloat.unpack
  dsimp only
  by_cases hlast : (@UnpackedFloat.unpackExponent .binary64 b).toNat = 2047
  · rw [if_pos (hall.mpr hlast), hlast]
    by_cases hfraction : (@UnpackedFloat.unpackMantissa .binary64 b).toNat = 0
    · rw [if_pos (hzero.mpr hfraction), hfraction, ofFields_infinity, signOf]
    · rw [if_neg (mt hzero.mp hfraction), ofFields_notANumber hfraction]
  · rw [if_neg (mt hall.mp hlast)]
    by_cases hfirst : (@UnpackedFloat.unpackExponent .binary64 b).toNat = 0
    · rw [if_pos (hnone.mpr hfirst), hfirst]
      by_cases hfraction : (@UnpackedFloat.unpackMantissa .binary64 b).toNat = 0
      · rw [dif_pos (hzero.mpr hfraction), hfraction, ofFields_zero, signOf]
      · rw [dif_neg (mt hzero.mp hfraction), ofFields_subnormal hfraction]
        rfl
    · rw [if_neg (mt hnone.mp hfirst), ofFields_normal hlast hfirst]
      exact finite_congr (toNat_leading_one _) rfl

theorem unpackSign_packComponents {format : Format} (e : BitVec format.exponentBits)
    (m : BitVec format.mantissaBitsWithoutImplicit) :
    UnpackedFloat.unpackSign (UnpackedFloat.packComponents format s e m) = s.toBitVec := by
  delta UnpackedFloat.unpackSign UnpackedFloat.packComponents
  ext i hi
  obtain rfl : i = 0 := by omega
  simp [BitVec.getLsbD_append, BitVec.getElem_append]

theorem signOf_packComponents (e : BitVec 11) (m : BitVec 52) :
    signOf (UnpackedFloat.packComponents .binary64 s e m) = s := by
  rw [signOf, unpackSign_packComponents]
  cases s <;> rfl

theorem unpack_packComponents (e : BitVec 11) (m : BitVec 52) :
    UnpackedFloat.unpack .binary64 (UnpackedFloat.packComponents .binary64 s e m) =
      ofFields s e.toNat m.toNat := by
  rw [unpack_eq, ← toNat_unpackExponent, ← toNat_unpackMantissa, signOf_packComponents,
    UnpackedFloat.unpackExponent_packComponents, UnpackedFloat.unpackMantissa_packComponents]

/-! ### Packing -/

/-- A number is packed with its leading one dropped, or as a subnormal one if it has none. -/
theorem pack_finite (he : e ≤ 971) :
    UnpackedFloat.pack .binary64 (.finite s m e hm) =
      if m.log2 = 52 then
        UnpackedFloat.packComponents .binary64 s (BitVec.ofNat 11 (e + 1075).toNat)
          (BitVec.ofNat 52 m)
      else UnpackedFloat.packComponents .binary64 s 0#11 (BitVec.ofNat 52 m) := by
  have hbiased : (e + (1023 : Nat) + (52 : Nat)).toNat = (e + 1075).toNat := by omega
  have hdigits : m.log2 + 1 = 53 ↔ m.log2 = 52 := by omega
  show (if 2 ^ 11 ≤ (e + (1023 : Nat) + (52 : Nat)).toNat + 1 then
      UnpackedFloat.packedInfinity .binary64 s
    else if m.log2 + 1 = 53 then
      UnpackedFloat.packComponents .binary64 s
        (BitVec.ofNat 11 (e + (1023 : Nat) + (52 : Nat)).toNat) (BitVec.ofNat 52 m)
    else UnpackedFloat.packComponents .binary64 s 0#11 (BitVec.ofNat 52 m)) = _
  rw [if_neg (by omega), hbiased]
  simp only [hdigits]

/-- Packing a number writes its fields. -/
theorem pack_ofFields (hfield : field < 2 ^ 11) (hfraction : fraction < 2 ^ 52)
    (hnumber : field = 2047 → fraction = 0) :
    UnpackedFloat.pack .binary64 (ofFields s field fraction) =
      UnpackedFloat.packComponents .binary64 s (BitVec.ofNat 11 field)
        (BitVec.ofNat 52 fraction) := by
  induction field, fraction using fieldCases with
  | infinity => rfl
  | notANumber fraction hnonzero => exact absurd (hnumber rfl) hnonzero
  | zero => rfl
  | subnormal fraction hnonzero =>
    -- fewer digits than a leading one would give
    have hlog := (Nat.log2_lt hnonzero).mpr hfraction
    rw [ofFields_subnormal hnonzero, pack_finite (by decide), if_neg (Nat.ne_of_lt hlog)]
  | normal field fraction hlast hfirst =>
    have hlog : (fraction + 2 ^ 52).log2 = 52 := by
      rw [Nat.log2_eq_iff (by omega)]
      omega
    -- the leading one lies above the bits of the fraction and is dropped
    have hbiased : ((field : Int) - 1075 + 1075).toNat = field := by omega
    have hdropped : BitVec.ofNat 52 (fraction + 2 ^ 52) = BitVec.ofNat 52 fraction := by
      apply BitVec.eq_of_toNat_eq
      rw [BitVec.toNat_ofNat, BitVec.toNat_ofNat, Nat.add_mod_right]
    rw [ofFields_normal hlast hfirst, pack_finite (by omega), if_pos hlog, hbiased, hdropped]

/-- What is packed is read again as it was. -/
theorem unpack_pack (hfield : field < 2 ^ 11) (hfraction : fraction < 2 ^ 52) :
    UnpackedFloat.unpack .binary64 (UnpackedFloat.pack .binary64 (ofFields s field fraction)) =
      ofFields s field fraction := by
  by_cases hnumber : field = 2047 → fraction = 0
  · rw [pack_ofFields hfield hfraction hnumber, unpack_packComponents, BitVec.toNat_ofNat,
      BitVec.toNat_ofNat, Nat.mod_eq_of_lt hfield, Nat.mod_eq_of_lt hfraction]
  · obtain ⟨rfl, hnonzero⟩ := Classical.not_imp.mp hnumber
    rw [ofFields_notANumber hnonzero]
    rfl

end Equilibrium.Binary
