/-
The order of sizes.

The size of a residual is an absolute value, and sizes are compared as doubles. Residuals are ranked
by their bits without the sign, which is the same order wherever there are numbers to compare:

* `Binary.unpack_abs` - the absolute value of a double, read from its bits;
* `Binary.Ranked`, `Binary.ranked_unpack` - the rank of a number from its significand and exponent;
* `Binary.compare_abs` - comparing absolute values is comparing ranks;
* `EquationSystem.worstOf_eq_some` - so the worst entry has the greatest size, and is the first one
  of that size.
-/
import Equilibrium.Proofs.ExactValues
import Equilibrium.Residual

namespace Equilibrium

open Float.Model

namespace Binary

/-! ### Absolute values -/

variable {s : UnpackedFloat.Sign} {field fraction : Nat}

theorem abs_ofFields : (ofFields s field fraction).abs = ofFields .positive field fraction := by
  induction field, fraction using fieldCases with
  | infinity => rfl
  | notANumber fraction hnonzero =>
    rw [ofFields_notANumber hnonzero, ofFields_notANumber hnonzero]
    rfl
  | zero => rfl
  | subnormal fraction hnonzero =>
    rw [ofFields_subnormal hnonzero, ofFields_subnormal hnonzero]
    rfl
  | normal field fraction hlast hfirst =>
    rw [ofFields_normal hlast hfirst, ofFields_normal hlast hfirst]
    rfl

/-- The absolute value of a double. -/
theorem unpack_abs (x : Float) : x.abs.toModel.unpack = x.toModel.unpack.abs := by
  show UnpackedFloat.unpack .binary64 (UnpackedFloat.pack .binary64
    (UnpackedFloat.unpack .binary64 x.toModel.toBits.toBitVec).abs) =
      (UnpackedFloat.unpack .binary64 x.toModel.toBits.toBitVec).abs
  rw [unpack_eq x.toModel.toBits.toBitVec, abs_ofFields,
    unpack_pack (Nat.mod_lt _ (by decide)) (Nat.mod_lt _ (by decide))]

theorem isNaN_abs (x : Float) : x.abs.isNaN = x.isNaN := by
  show x.abs.toModel.unpack.isNaN = x.toModel.unpack.isNaN
  rw [unpack_abs]
  cases x.toModel.unpack <;> rfl

/-! ### Ranks -/

/-- The rank of a number: its exponent and its significand in one, where a leading one counts as a
part of the significand. -/
def Ranked : UnpackedFloat → Nat → Prop
  | .notANumber, _ => False
  | .infinity _, r => r = 2047 * 2 ^ 52
  | .zero _, r => r = 0
  | .finite _ m e _, r => r = (e + 1074).toNat * 2 ^ 52 + m ∧ -1074 ≤ e ∧ e ≤ 971 ∧ m < 2 ^ 53 ∧
      (2 ^ 52 ≤ m ∨ e = -1074)

theorem ranked_finite {m r : Nat} {e : Int} {hm : 0 < m} :
    Ranked (.finite s m e hm) r ↔ r = (e + 1074).toNat * 2 ^ 52 + m ∧ -1074 ≤ e ∧ e ≤ 971 ∧
      m < 2 ^ 53 ∧ (2 ^ 52 ≤ m ∨ e = -1074) := Iff.rfl

theorem ranked_ofFields (hfield : field < 2 ^ 11) (hfraction : fraction < 2 ^ 52)
    (hnumber : (ofFields s field fraction).isNaN = false) :
    Ranked (ofFields s field fraction) (field * 2 ^ 52 + fraction) := by
  induction field, fraction using fieldCases with
  | infinity => rfl
  | notANumber fraction hnonzero =>
    rw [ofFields_notANumber hnonzero] at hnumber
    cases hnumber
  | zero => rfl
  | subnormal fraction hnonzero =>
    rw [ofFields_subnormal hnonzero, ranked_finite]
    omega
  | normal field fraction hlast hfirst =>
    rw [ofFields_normal hlast hfirst, ranked_finite]
    omega

/-- The bits without the sign are the rank. -/
theorem ranked_unpack {b : BitVec 64} (hb : (UnpackedFloat.unpack .binary64 b).isNaN = false) :
    Ranked (UnpackedFloat.unpack .binary64 b) (b.toNat % 2 ^ 63) := by
  have hbits : b.toNat % 2 ^ 63 = b.toNat / 2 ^ 52 % 2 ^ 11 * 2 ^ 52 + b.toNat % 2 ^ 52 := by omega
  rw [unpack_eq] at hb ⊢
  rw [hbits]
  exact ranked_ofFields (Nat.mod_lt _ (by decide)) (Nat.mod_lt _ (by decide)) hb

/-- Absolute values are ordered as their ranks are. -/
theorem compare_abs {u v : UnpackedFloat} {r q : Nat} (hu : Ranked u r) (hv : Ranked v q) :
    u.abs.compare v.abs = some (compare r q) := by
  cases u with
  | notANumber => exact hu.elim
  | infinity s =>
    cases v with
    | notANumber => exact hv.elim
    | infinity t =>
      obtain rfl : r = _ := hu
      obtain rfl : q = _ := hv
      rfl
    | zero t =>
      obtain rfl : r = _ := hu
      obtain rfl : q = _ := hv
      rfl
    | finite t m e hm =>
      obtain rfl : r = _ := hu
      obtain ⟨rfl, hlow, hhigh, hlt, -⟩ := hv
      have : (e + 1074).toNat * 2 ^ 52 + m < 2047 * 2 ^ 52 := by omega
      rw [Nat.compare_eq_gt.mpr this]
      rfl
  | zero s =>
    cases v with
    | notANumber => exact hv.elim
    | infinity t =>
      obtain rfl : r = _ := hu
      obtain rfl : q = _ := hv
      rfl
    | zero t =>
      obtain rfl : r = _ := hu
      obtain rfl : q = _ := hv
      rfl
    | finite t m e hm =>
      obtain rfl : r = _ := hu
      obtain ⟨rfl, hlow, hhigh, hlt, -⟩ := hv
      have : 0 < (e + 1074).toNat * 2 ^ 52 + m := by omega
      rw [Nat.compare_eq_lt.mpr this]
      rfl
  | finite s m e hm =>
    obtain ⟨rfl, hlow, hhigh, hlt, hleast⟩ := hu
    cases v with
    | notANumber => exact hv.elim
    | infinity t =>
      obtain rfl : q = _ := hv
      have : (e + 1074).toNat * 2 ^ 52 + m < 2047 * 2 ^ 52 := by omega
      rw [Nat.compare_eq_lt.mpr this]
      rfl
    | zero t =>
      obtain rfl : q = _ := hv
      have : 0 < (e + 1074).toNat * 2 ^ 52 + m := by omega
      rw [Nat.compare_eq_gt.mpr this]
      rfl
    | finite t n f hn =>
      obtain ⟨rfl, hlow', hhigh', hlt', hleast'⟩ := hv
      -- the significand decides between equal exponents only
      show some ((compare e f).then (compare m n)) = _
      simp only [Int.compare_eq_ite_lt, Nat.compare_eq_ite_lt]
      rcases lt_trichotomy e f with h | rfl | h
      · have : (e + 1074).toNat * 2 ^ 52 + m < (f + 1074).toNat * 2 ^ 52 + n := by omega
        rw [if_pos h, if_pos this]
        rfl
      · simp only [lt_irrefl, if_false, Ordering.then, add_lt_add_iff_left]
      · have : (f + 1074).toNat * 2 ^ 52 + n < (e + 1074).toNat * 2 ^ 52 + m := by omega
        rw [if_neg h.asymm, if_pos h, if_neg this.asymm, if_pos this]
        rfl

variable {x y : Float}

theorem compare_toModel_abs (hx : x.isNaN = false) (hy : y.isNaN = false) :
    x.abs.toModel.unpack.compare y.abs.toModel.unpack =
      some (compare (x.toBits.toNat % 2 ^ 63) (y.toBits.toNat % 2 ^ 63)) := by
  rw [unpack_abs, unpack_abs]
  exact compare_abs (ranked_unpack hx) (ranked_unpack hy)

theorem abs_le_abs (hx : x.isNaN = false) (hy : y.isNaN = false) :
    x.abs ≤ y.abs ↔ x.toBits.toNat % 2 ^ 63 ≤ y.toBits.toNat % 2 ^ 63 := by
  have hle : x.abs ≤ y.abs ↔ x.abs.toModel.unpack.le y.abs.toModel.unpack = true :=
    decide_eq_true_iff
  rw [hle, UnpackedFloat.le, compare_toModel_abs hx hy]
  exact Nat.isLE_compare

theorem abs_lt_abs (hx : x.isNaN = false) (hy : y.isNaN = false) :
    x.abs < y.abs ↔ x.toBits.toNat % 2 ^ 63 < y.toBits.toNat % 2 ^ 63 := by
  have hlt : x.abs < y.abs ↔ x.abs.toModel.unpack.lt y.abs.toModel.unpack = true :=
    decide_eq_true_iff
  rw [hlt, UnpackedFloat.lt, compare_toModel_abs hx hy, beq_iff_eq, Option.some_inj]
  exact Nat.compare_eq_lt

end Binary

namespace ResidualEntry

variable {a e w : ResidualEntry} {rest : List ResidualEntry}

/-- An entry of the greatest rank in a list, the first one if there are several. -/
def IsFirstGreatest (w : ResidualEntry) (entries : List ResidualEntry) : Prop :=
  ∃ before after, entries = before ++ w :: after ∧ (∀ a ∈ before, a.rank < w.rank) ∧
    ∀ a ∈ after, a.rank ≤ w.rank

theorem IsFirstGreatest.rank_le (h : IsFirstGreatest w rest) (ha : a ∈ rest) :
    a.rank ≤ w.rank := by
  obtain ⟨before, after, rfl, hbefore, hafter⟩ := h
  rw [List.mem_append, List.mem_cons] at ha
  obtain ha | rfl | ha := ha
  · exact (hbefore a ha).le
  · exact le_rfl
  · exact hafter a ha

/-- A smaller entry in front of a list. -/
theorem IsFirstGreatest.cons (h : IsFirstGreatest w (a :: rest)) (hlt : e.rank < a.rank) :
    IsFirstGreatest w (e :: a :: rest) := by
  have hle := h.rank_le List.mem_cons_self
  obtain ⟨before, after, hsplit, hbefore, hafter⟩ := h
  refine ⟨e :: before, after, by rw [hsplit]; rfl, ?_, hafter⟩
  rintro c (_ | ⟨_, hc⟩)
  · exact hlt.trans_le hle
  · exact hbefore c hc

/-- An entry that is no greater than the first one, after that one. -/
theorem IsFirstGreatest.insert (h : IsFirstGreatest w (e :: rest)) (hle : a.rank ≤ e.rank) :
    IsFirstGreatest w (e :: a :: rest) := by
  obtain ⟨_ | ⟨b, before⟩, after, hsplit, hbefore, hafter⟩ := h
  · obtain ⟨rfl, rfl⟩ := List.cons.inj hsplit
    refine ⟨[], a :: rest, rfl, hbefore, ?_⟩
    rintro c (_ | ⟨_, hc⟩)
    · exact hle
    · exact hafter c hc
  · obtain ⟨rfl, rfl⟩ := List.cons.inj hsplit
    have hlt := hbefore e List.mem_cons_self
    refine ⟨e :: a :: before, after, rfl, ?_, hafter⟩
    rintro c (_ | ⟨_, _ | ⟨_, hc⟩⟩)
    · exact hlt
    · exact hle.trans_lt hlt
    · exact hbefore c (List.mem_cons_of_mem e hc)

end ResidualEntry

namespace EquationSystem

open ResidualEntry

/-- Going through numbers with the worst entry so far finds the first one of the greatest rank. -/
theorem foldl_isWorse (rest : List ResidualEntry) (e : ResidualEntry)
    (hall : ∀ a ∈ e :: rest, a.isNaN = false) :
    IsFirstGreatest (rest.foldl (fun worst a => if a.isWorse worst then a else worst) e)
      (e :: rest) := by
  induction rest generalizing e with
  | nil => exact ⟨[], [], rfl, by simp, by simp⟩
  | cons a rest ih =>
    rw [List.forall_mem_cons, List.forall_mem_cons] at hall
    obtain ⟨he, ha, hrest⟩ := hall
    have hiff : a.isWorse e = true ↔ e.rank < a.rank := by
      simp [isWorse, he, ha]
    rw [List.foldl_cons]
    by_cases hworse : a.isWorse e = true
    · rw [if_pos hworse]
      exact (ih a (List.forall_mem_cons.mpr ⟨ha, hrest⟩)).cons (hiff.mp hworse)
    · rw [if_neg hworse]
      exact (ih e (List.forall_mem_cons.mpr ⟨he, hrest⟩)).insert
        (not_lt.mp (mt hiff.mpr hworse))

/-- The worst one of numbers is the first one of the greatest size. -/
theorem worstOf_eq_some {entries : List ResidualEntry} {w : ResidualEntry}
    (hall : ∀ e ∈ entries, e.isNaN = false) (hw : worstOf entries = some w) :
    ∃ before after, entries = before ++ w :: after ∧ (∀ e ∈ before, e.size < w.size) ∧
      ∀ e ∈ after, e.size ≤ w.size := by
  cases entries with
  | nil => cases hw
  | cons e rest =>
    -- among numbers the ranks are the order of the sizes
    have hgreatest := foldl_isWorse rest e hall
    rw [worstOf, Option.some_inj] at hw
    rw [hw] at hgreatest
    obtain ⟨before, after, hsplit, hbefore, hafter⟩ := hgreatest
    rw [hsplit] at hall ⊢
    have hnumber := hall w (by simp)
    refine ⟨before, after, rfl, fun a ha => ?_, fun a ha => ?_⟩
    · exact (Binary.abs_lt_abs (hall a (by simp [ha])) hnumber).mpr (hbefore a ha)
    · exact (Binary.abs_le_abs (hall a (by simp [ha])) hnumber).mpr (hafter a ha)

end EquationSystem

end Equilibrium
