/-
Numbers with an exact value.

Whole numbers and finite doubles have a value, which is a rational number. A finite double is read
as a whole number of steps; comparing it with zero is comparing that value with zero.

* `Binary.classify_eq` - the bits of a double, read as in the reference model of doubles;
* `Binary.Parts.value`, `Number.rational?` - the value of a finite double and of a number;
* `Number.isNonneg_of_rational?`, `Number.isNonpos_of_rational?`, `Number.isZero_of_rational?` -
  comparisons with zero are those of the values;
* `Variable.HasBounds` - the values of the bounds of a variable.
-/
import Equilibrium.Proofs.DoubleFields
import Equilibrium.Variable
import Mathlib.Algebra.Order.Field.Rat
import Mathlib.Algebra.Order.Field.Power
import Mathlib.Tactic.Positivity

namespace Equilibrium

open Float.Model

namespace Binary

/-- Whether a sign is that of the negative numbers. -/
def isNegative : UnpackedFloat.Sign → Bool
  | .negative => true
  | .positive => false

/-- What the fields of a double stand for. -/
def classOf : UnpackedFloat → Class
  | .notANumber => .nan
  | .infinity s => .infinite (isNegative s)
  | .zero s => .finite ⟨isNegative s, 0, -1074⟩
  | .finite s m e _ => .finite ⟨isNegative s, m, e⟩

theorem isNegative_signOf (b : BitVec 64) : isNegative (signOf b) = (b.toNat / 2 ^ 63 == 1) := by
  have hsign : (@UnpackedFloat.unpackSign .binary64 b).toNat = b.toNat / 2 ^ 63 := by
    have := b.isLt
    delta UnpackedFloat.unpackSign
    rw [BitVec.toNat_cast, BitVec.extractLsb_toNat, Nat.shiftRight_eq_div_pow]
    show b.toNat / 2 ^ 63 % 2 ^ 1 = _
    omega
  have hlt := b.isLt
  rw [signOf, UnpackedFloat.Sign.ofBitVec]
  split
  · next h =>
    have hzero : b.toNat / 2 ^ 63 = 0 := by
      rw [← hsign, h]
      rfl
    rw [hzero]
    rfl
  · next h =>
    have hne : (@UnpackedFloat.unpackSign .binary64 b).toNat ≠ 0 := fun hc =>
      h (BitVec.eq_of_toNat_eq hc)
    have hone : b.toNat / 2 ^ 63 = 1 := by omega
    rw [hone]
    rfl

theorem classifyBits_eq (b : BitVec 64) :
    classifyBits b.toNat = classOf (UnpackedFloat.unpack .binary64 b) := by
  rw [unpack_eq, classifyBits]
  simp only [Nat.pow_eq, -Nat.reducePow, ← isNegative_signOf]
  induction b.toNat / 2 ^ 52 % 2 ^ 11, b.toNat % 2 ^ 52 using fieldCases with
  | infinity => rfl
  | notANumber fraction hnonzero =>
    rw [ofFields_notANumber hnonzero]
    exact if_neg hnonzero
  | zero => rfl
  | subnormal fraction hnonzero =>
    rw [ofFields_subnormal hnonzero]
    rfl
  | normal field fraction hlast hfirst =>
    rw [ofFields_normal hlast hfirst, if_neg hlast, if_neg hfirst]
    rfl

theorem classify_eq (x : Float) : classify x = classOf x.toModel.unpack :=
  classifyBits_eq x.toModel.toBits.toBitVec

/-- The value of a finite double. -/
def Parts.value (p : Parts) : ℚ :=
  (if p.negative then -1 else 1) * p.significand * 2 ^ p.exponent

theorem Parts.value_zero (negative : Bool) (e : Int) : Parts.value ⟨negative, 0, e⟩ = 0 := by
  simp [value]

theorem Parts.value_pos {m : Nat} (hm : 0 < m) (e : Int) : 0 < Parts.value ⟨false, m, e⟩ := by
  have hpos : (0 : ℚ) < m * 2 ^ e := by positivity
  simpa [value] using hpos

theorem Parts.value_neg {m : Nat} (hm : 0 < m) (e : Int) : Parts.value ⟨true, m, e⟩ < 0 := by
  have hpos : (0 : ℚ) < m * 2 ^ e := by positivity
  simpa [value] using hpos

theorem Parts.value_eq_zero {p : Parts} : p.value = 0 ↔ p.significand = 0 := by
  obtain ⟨negative, m, e⟩ := p
  rcases Nat.eq_zero_or_pos m with rfl | hm
  · simp [value_zero]
  · have hne : Parts.value ⟨negative, m, e⟩ ≠ 0 := by
      cases negative with
      | false => exact (value_pos hm e).ne'
      | true => exact (value_neg hm e).ne
    simp [hne, hm.ne']

theorem unpack_zero : (0.0 : Float).toModel.unpack = .zero .positive := rfl

theorem le_iff (x y : Float) :
    x ≤ y ↔ UnpackedFloat.le x.toModel.unpack y.toModel.unpack = true := by
  show Float.le x y = true ↔ _
  rw [Float.le, decide_eq_true_iff]
  rfl

/-- A finite double is zero or has a significand. -/
theorem unpack_of_finite {x : Float} {p : Parts} (h : classify x = .finite p) :
    (∃ s, x.toModel.unpack = .zero s ∧ p = ⟨isNegative s, 0, -1074⟩) ∨
      ∃ s m e hm, x.toModel.unpack = .finite s m e hm ∧ p = ⟨isNegative s, m, e⟩ := by
  rw [classify_eq] at h
  cases hx : x.toModel.unpack with
  | notANumber =>
    rw [hx] at h
    cases h
  | infinity s =>
    rw [hx] at h
    cases h
  | zero s =>
    rw [hx] at h
    exact .inl ⟨s, rfl, (Class.finite.inj h).symm⟩
  | finite s m e hm =>
    rw [hx] at h
    exact .inr ⟨s, m, e, hm, rfl, (Class.finite.inj h).symm⟩

/-- The sign of a finite double is that of its value. -/
theorem signs_of_finite {x : Float} {p : Parts} (h : classify x = .finite p) :
    (x ≥ 0.0 ↔ 0 ≤ p.value) ∧ (x ≤ 0.0 ↔ p.value ≤ 0) := by
  show ((0.0 : Float) ≤ x ↔ _) ∧ _
  rw [le_iff, le_iff, unpack_zero]
  obtain ⟨s, hx, rfl⟩ | ⟨s, m, e, hm, hx, rfl⟩ := unpack_of_finite h
  · rw [hx, Parts.value_zero]
    exact ⟨iff_of_true rfl le_rfl, iff_of_true rfl le_rfl⟩
  · rw [hx]
    cases s with
    | negative =>
      have hneg := Parts.value_neg hm e
      exact ⟨iff_of_false Bool.false_ne_true hneg.not_ge, iff_of_true rfl hneg.le⟩
    | positive =>
      have hpos := Parts.value_pos hm e
      exact ⟨iff_of_true rfl hpos.le, iff_of_false Bool.false_ne_true hpos.not_ge⟩

theorem not_isInf_of_finite {x : Float} {p : Parts} (h : classify x = .finite p) :
    x.isInf = false ∧ x.isNaN = false := by
  show UnpackedFloat.isInf x.toModel.unpack = false ∧ UnpackedFloat.isNaN x.toModel.unpack = false
  obtain ⟨s, hx, -⟩ | ⟨s, m, e, hm, hx, -⟩ := unpack_of_finite h
  · rw [hx]
    exact ⟨rfl, rfl⟩
  · rw [hx]
    exact ⟨rfl, rfl⟩

end Binary

namespace Number

/-- The value of a number that is whole or a finite double. -/
def rational? : Number → Option ℚ
  | int n => some n
  | real x => match Binary.classify x with
    | .finite p => some p.value
    | _ => none
  | complex _ => none

variable {n : Number} {q : ℚ}

theorem classify_of_rational? {x : Float} (h : (real x).rational? = some q) :
    ∃ p, Binary.classify x = .finite p ∧ p.value = q := by
  rw [rational?] at h
  split at h
  · next p hp => exact ⟨p, hp, Option.some.inj h⟩
  · simp at h

theorem isNonneg_of_rational? (h : n.rational? = some q) : n.isNonneg = .ok (decide (0 ≤ q)) := by
  cases n with
  | int k =>
    cases h
    simp [isNonneg]
  | real x =>
    obtain ⟨p, hp, rfl⟩ := classify_of_rational? h
    exact congrArg Except.ok (decide_eq_decide.mpr (Binary.signs_of_finite hp).1)
  | complex z => simp [rational?] at h

theorem isNonpos_of_rational? (h : n.rational? = some q) : n.isNonpos = .ok (decide (q ≤ 0)) := by
  cases n with
  | int k =>
    cases h
    simp [isNonpos]
  | real x =>
    obtain ⟨p, hp, rfl⟩ := classify_of_rational? h
    exact congrArg Except.ok (decide_eq_decide.mpr (Binary.signs_of_finite hp).2)
  | complex z => simp [rational?] at h

theorem isZero_of_rational? (h : n.rational? = some q) : n.isZero = decide (q = 0) := by
  cases n with
  | int k =>
    cases h
    rw [isZero_int, Bool.eq_iff_iff, decide_eq_true_iff, beq_iff_eq]
    exact Int.cast_eq_zero.symm
  | real x =>
    obtain ⟨p, hp, rfl⟩ := classify_of_rational? h
    show realEqualsInt x 0 = _
    rw [realEqualsInt, hp, Bool.eq_iff_iff, decide_eq_true_iff, Binary.Parts.value_eq_zero,
      beq_iff_eq, Binary.compareInt, Std.compare_eq_iff_eq]
    cases p.negative <;> simp
  | complex z => simp [rational?] at h

end Number

namespace Variable

/-- The values of the bounds, where there are any. -/
def HasBounds (v : Variable) (lower upper : Option ℚ) : Prop :=
  v.lower.map Number.rational? = lower.map some ∧ v.upper.map Number.rational? = upper.map some

/-- A bound with a value is read as it is. -/
theorem readBound_of_rational? {harmless : Float → Bool} {bound : Option Number} {q : Option ℚ}
    (hharmless : ∀ x : Float, x.isInf = false → harmless x = false)
    (hbound : bound.map Number.rational? = q.map some) : readBound harmless bound = .ok bound := by
  cases bound with
  | none => rfl
  | some n =>
    cases n with
    | int k => rfl
    | complex z => rfl
    | real x =>
      obtain ⟨value, -, hvalue⟩ := Option.map_eq_some_iff.mp hbound.symm
      obtain ⟨p, hp, -⟩ := Number.classify_of_rational? hvalue.symm
      obtain ⟨hinf, hnan⟩ := Binary.not_isInf_of_finite hp
      rw [readBound, hharmless x hinf, hinf, hnan]
      rfl

variable {v : Variable} {lower upper : Option ℚ}

theorem HasBounds.readLower_eq (h : v.HasBounds lower upper) : v.readLower = .ok v.lower :=
  readBound_of_rational? (fun x hx => by rw [hx, Bool.false_and]) h.1

theorem HasBounds.readUpper_eq (h : v.HasBounds lower upper) : v.readUpper = .ok v.upper :=
  readBound_of_rational? (fun x hx => by rw [hx, Bool.false_and]) h.2

end Variable

end Equilibrium
