/-
Expressions over whole numbers.

Where the variables hold whole numbers, building an expression and simplifying it on the way is the
arithmetic of the integers: a zero summand and a factor of one disappear, sums are flattened and
reordered, coefficients are multiplied in, double negations cancel, and the value stays what it was.

* `Number.eq_int_of_add`, `Number.eq_int_of_mul` - a whole result has whole operands;
* `Expression.SumsTo` - the items of a sum add up to a whole number;
* `Expression.add_whole`, `Expression.sub_whole`, `Expression.mul_whole`, `Expression.negate_whole`,
  `Expression.pow_whole` - each operation on expressions computes the one on integers;
* `Expression.Stands` - an expression stands for a whole number, or is a table and takes no part in
  any operation.

An expression is taken apart when it is simplified further, so the converse is needed throughout:
what has a whole value was put together from parts with whole values.
-/
import Equilibrium.Expression.Evaluation
import Equilibrium.Proofs.Results
import Mathlib.Algebra.Ring.Int.Defs

namespace Equilibrium

namespace Number

/-- If neither doubles nor complex numbers give a whole number, a whole result has whole operands.
-/
theorem eq_int_of_lift {onInt : Int → Int → Except Fault Number}
    {onReal : Float → Float → Except Fault Number}
    {onComplex : Complex → Complex → Except Fault Number} {a b : Number} {n : Int}
    (hreal : ∀ x y, onReal x y ≠ .ok (int n)) (hcomplex : ∀ z w, onComplex z w ≠ .ok (int n))
    (h : lift onInt onReal onComplex a b = .ok (int n)) :
    ∃ i j, a = int i ∧ b = int j ∧ onInt i j = .ok (int n) := by
  unfold lift at h
  split at h
  · exact ⟨_, _, rfl, rfl, h⟩
  · split at h
    · obtain ⟨z, -, h⟩ := bind_eq_ok.mp h
      obtain ⟨w, -, h⟩ := bind_eq_ok.mp h
      exact absurd h (hcomplex z w)
    · obtain ⟨x, -, h⟩ := bind_eq_ok.mp h
      obtain ⟨y, -, h⟩ := bind_eq_ok.mp h
      exact absurd h (hreal x y)

theorem eq_int_of_add {a b : Number} {n : Int} (h : a.add b = .ok (int n)) :
    ∃ i j, a = int i ∧ b = int j ∧ i + j = n := by
  obtain ⟨i, j, ha, hb, hn⟩ := eq_int_of_lift (by simp) (by simp) h
  exact ⟨i, j, ha, hb, by simpa using hn⟩

theorem eq_int_of_mul {a b : Number} {n : Int} (h : a.mul b = .ok (int n)) :
    ∃ i j, a = int i ∧ b = int j ∧ i * j = n := by
  obtain ⟨i, j, ha, hb, hn⟩ := eq_int_of_lift (by simp) (by simp) h
  exact ⟨i, j, ha, hb, by simpa using hn⟩

theorem eq_int_of_neg {a : Number} {n : Int} (h : a.neg = int n) : a = int (-n) := by
  cases a with
  | int k => simp_all [neg]; omega
  | real x => simp [neg] at h
  | complex z => simp [neg] at h

/-- Adding whole numbers to a whole number, from the left. -/
theorem foldlM_add_int (k : Int) (ks : List Int) :
    (ks.map int).foldlM Number.add (int k) = .ok (int (k + ks.sum)) := by
  induction ks generalizing k with
  | nil => simp [pure, Except.pure]
  | cons j rest ih =>
    rw [List.map_cons, List.foldlM_cons, add_int]
    show (rest.map int).foldlM Number.add (int (k + j)) = _
    rw [ih, List.sum_cons, Int.add_assoc]

/-- A whole total has whole summands. -/
theorem eq_int_of_foldlM_add {m : Number} {ns : List Number} {n : Int}
    (h : ns.foldlM Number.add m = .ok (int n)) :
    ∃ (k : Int) (ks : List Int), m = int k ∧ ns = ks.map int ∧ k + ks.sum = n := by
  induction ns generalizing m with
  | nil =>
    simp only [List.foldlM_nil, pure, Except.pure, Except.ok.injEq] at h
    exact ⟨n, [], h, rfl, by simp⟩
  | cons a rest ih =>
    rw [List.foldlM_cons] at h
    obtain ⟨m', hm, h⟩ := bind_eq_ok.mp h
    obtain ⟨k', ks, rfl, hrest, hsum⟩ := ih h
    obtain ⟨k, j, hk, hj, hkj⟩ := eq_int_of_add hm
    refine ⟨k, j :: ks, hk, by rw [hj, hrest]; rfl, ?_⟩
    rw [List.sum_cons]
    omega

end Number

namespace Value

/-- An operation on whole numbers; on any other value it gives nothing. -/
def onWhole (f : Int → Int) : Value → Option Value
  | number (.int n) => some (number (.int (f n)))
  | _ => Option.none

/-- An operation on two whole numbers; on any other values it gives nothing. -/
def onWholes (f : Int → Int → Int) : Value → Value → Option Value
  | number (.int m), number (.int n) => some (number (.int (f m n)))
  | _, _ => Option.none

/-- Values combined from the left. One value is left as it is, and without any there is nothing to
combine. -/
def combine (f : Int → Int → Int) : List (Option Value) → Option Value
  | [] => Option.none
  | o :: rest => rest.foldl (fun acc o => acc.bind fun v => o.bind (onWholes f v)) o

end Value

namespace Expression

variable {values : Assignment}

/-! ### The items of a sum -/

/-- The items of a sum have whole values, which add up to `n`. -/
def SumsTo (values : Assignment) (items : List Expression) (n : Int) : Prop :=
  ∃ (k : Int) (ks : List Int), evalAll values items = some (.int k :: ks.map .int) ∧ k + ks.sum = n

theorem total_eq_int {ns : List Number} {n : Int} :
    total ns = some (.int n) ↔
      ∃ (k : Int) (ks : List Int), ns = .int k :: ks.map .int ∧ k + ks.sum = n := by
  cases ns with
  | nil => simp [total]
  | cons m rest =>
    constructor
    · intro h
      cases hr : rest.foldlM Number.add m with
      | error e => simp [total, hr, Except.toOption] at h
      | ok r =>
        have hrn : r = .int n := by simpa [total, hr, Except.toOption] using h
        obtain ⟨k, ks, hk, hks, hsum⟩ := Number.eq_int_of_foldlM_add (hrn ▸ hr)
        exact ⟨k, ks, by rw [hk, hks], hsum⟩
    · rintro ⟨k, ks, hns, hsum⟩
      obtain ⟨rfl, rfl⟩ := List.cons.inj hns
      rw [total, Number.foldlM_add_int, hsum]
      rfl

theorem eval_linear_iff {items : List Expression} {n : Int} :
    (linear items).eval values = some (.int n) ↔ SumsTo values items n := by
  rw [eval, SumsTo]
  cases h : evalAll values items with
  | none => simp
  | some ns => simpa using total_eq_int

theorem eval_sum_iff {items : List Expression} {n : Int} :
    (sum items).eval values = some (.int n) ↔ SumsTo values items n := eval_linear_iff

theorem evalAll_append {xs ys : List Expression} {ms ns : List Number}
    (hx : evalAll values xs = some ms) (hy : evalAll values ys = some ns) :
    evalAll values (xs ++ ys) = some (ms ++ ns) := by
  induction xs generalizing ms with
  | nil =>
    cases hx
    exact hy
  | cons e rest ih =>
    rw [evalAll] at hx
    split at hx
    · next m ms' he hrest =>
      cases hx
      rw [List.cons_append, evalAll, he, ih hrest]
      rfl
    · simp at hx

theorem SumsTo.append {xs ys : List Expression} {m n : Int} (hx : SumsTo values xs m)
    (hy : SumsTo values ys n) : SumsTo values (xs ++ ys) (m + n) := by
  obtain ⟨k, ks, hks, rfl⟩ := hx
  obtain ⟨j, js, hjs, rfl⟩ := hy
  refine ⟨k, ks ++ j :: js, by simpa using evalAll_append hks hjs, ?_⟩
  rw [List.sum_append, List.sum_cons]
  omega

theorem SumsTo.single {e : Expression} {n : Int} (h : e.eval values = some (.int n)) :
    SumsTo values [e] n :=
  ⟨n, [], by simp [evalAll, h], by simp⟩

/-! ### Sums -/

variable {a b e : Expression} {m n : Int}

theorem joinSums_whole (ha : a.eval values = some (.int m)) (hb : b.eval values = some (.int n)) :
    (joinSums a b).eval values = some (.int (m + n)) := by
  have pair : SumsTo values [a, b] (m + n) := (SumsTo.single ha).append (.single hb)
  unfold joinSums
  split
  · exact eval_linear_iff.mpr ((eval_linear_iff.mp ha).append (eval_linear_iff.mp hb))
  · exact eval_sum_iff.mpr ((eval_sum_iff.mp ha).append (eval_sum_iff.mp hb))
  · exact eval_sum_iff.mpr ((eval_sum_iff.mp ha).append (.single hb))
  · -- the left operand goes last, so the summands change their order
    rw [Int.add_comm]
    exact eval_sum_iff.mpr ((eval_sum_iff.mp hb).append (.single ha))
  · split
    · exact eval_linear_iff.mpr ((eval_linear_iff.mp ha).append (.single hb))
    · exact eval_sum_iff.mpr pair
  · split
    · rw [Int.add_comm]
      exact eval_linear_iff.mpr ((eval_linear_iff.mp hb).append (.single ha))
    · exact eval_sum_iff.mpr pair
  · split
    · exact eval_linear_iff.mpr pair
    · exact eval_sum_iff.mpr pair

/-- A plain value with a whole value is that whole number. -/
theorem eq_int_of_eval_native {v : Value} (h : (native v).eval values = some (.int n)) :
    v = .number (.int n) := by
  cases v with
  | number k =>
    rw [eval_native] at h
    rw [Option.some.inj h]
  | _ => simp [eval] at h

/-- An expression that is the plain number zero has the value zero. -/
theorem eq_zero_of_isZero (h : a.isZero = true) (ha : a.eval values = some (.int m)) : m = 0 := by
  cases a with
  | native v =>
    obtain rfl := eq_int_of_eval_native ha
    simpa [isZero] using h
  | _ => simp [isZero] at h

theorem eq_one_of_isOne (h : a.isOne = true) (ha : a.eval values = some (.int m)) : m = 1 := by
  cases a with
  | native v =>
    obtain rfl := eq_int_of_eval_native ha
    simpa [isOne] using h
  | _ => simp [isOne] at h

theorem add_whole (ha : a.eval values = some (.int m)) (hb : b.eval values = some (.int n))
    (h : a.add b = .ok e) : e.eval values = some (.int (m + n)) := by
  unfold add at h
  split at h
  · obtain rfl := eq_int_of_eval_native ha
    obtain rfl := eq_int_of_eval_native hb
    cases h
    rfl
  · obtain ⟨-, -, h⟩ := bind_eq_ok.mp h
    obtain ⟨-, -, h⟩ := bind_eq_ok.mp h
    split at h
    · next hz =>
      cases h
      rw [eq_zero_of_isZero hz ha, Int.zero_add, hb]
    · split at h
      · next hz =>
        cases h
        rw [eq_zero_of_isZero hz hb, Int.add_zero, ha]
      · cases h
        exact joinSums_whole ha hb

theorem eval_mono_int {id : VarId} {j : Int} (h : values id = some (.int j)) (i : Int) :
    (mono (.int i) id).eval values = some (.int (i * j)) := by
  rw [eval, h]
  rfl

/-- A multiple of a variable with a whole value has a whole coefficient and a whole variable. -/
theorem eq_int_of_eval_mono {c : Number} {id : VarId}
    (h : (mono c id).eval values = some (.int n)) :
    ∃ i j, c = .int i ∧ values id = some (.int j) ∧ i * j = n := by
  rw [eval] at h
  split at h
  · next k hk =>
    cases hc : c.mul k with
    | error e => simp [hc, Except.toOption] at h
    | ok r =>
      rw [hc] at h
      obtain rfl := Option.some.inj h
      obtain ⟨i, j, hi, hj, hij⟩ := Number.eq_int_of_mul hc
      exact ⟨i, j, hi, hj ▸ hk, hij⟩
  · simp at h

theorem negate_whole (ha : a.eval values = some (.int m)) (h : a.negate = .ok e) :
    e.eval values = some (.int (-m)) := by
  cases a with
  | native v =>
    obtain rfl := eq_int_of_eval_native ha
    cases h
    rfl
  | var id =>
    cases h
    rw [eval_mono_int ha, Int.neg_one_mul]
  | mono c id =>
    cases h
    obtain ⟨i, j, rfl, hj, rfl⟩ := eq_int_of_eval_mono ha
    rw [Number.neg_int, eval_mono_int hj, Int.neg_mul]
  | neg d =>
    cases h
    rw [eval] at ha
    obtain ⟨k, hk, hn⟩ := Option.map_eq_some_iff.mp ha
    rw [hk, Number.eq_int_of_neg hn]
  | _ =>
    cases h
    rw [eval, ha]
    rfl

theorem sub_whole (ha : a.eval values = some (.int m)) (hb : b.eval values = some (.int n))
    (h : a.sub b = .ok e) : e.eval values = some (.int (m - n)) := by
  unfold sub at h
  split at h
  · obtain rfl := eq_int_of_eval_native ha
    obtain rfl := eq_int_of_eval_native hb
    cases h
    rfl
  · obtain ⟨-, -, h⟩ := bind_eq_ok.mp h
    obtain ⟨c, hc, h⟩ := bind_eq_ok.mp h
    exact add_whole ha (negate_whole hb hc) h
  · obtain ⟨c, hc, h⟩ := bind_eq_ok.mp h
    exact add_whole ha (negate_whole hb hc) h

theorem requireNumber_of_eval {k : Number} (ha : a.eval values = some k) :
    a.requireNumber = .ok () := by
  cases a with
  | native v =>
    cases v with
    | number _ => rfl
    | _ => simp [eval] at ha
  | _ => rfl

theorem exists_add_whole (ha : a.eval values = some (.int m)) (hb : b.eval values = some (.int n)) :
    ∃ e, a.add b = .ok e := by
  unfold add
  split
  · obtain rfl := eq_int_of_eval_native ha
    obtain rfl := eq_int_of_eval_native hb
    exact ⟨_, rfl⟩
  · rw [requireNumber_of_eval ha, requireNumber_of_eval hb]
    show ∃ e, (if a.isZero = true then _ else _) = Except.ok e
    split
    · exact ⟨_, rfl⟩
    · split <;> exact ⟨_, rfl⟩

theorem exists_negate_whole (ha : a.eval values = some (.int m)) : ∃ e, a.negate = .ok e := by
  cases a with
  | native v =>
    obtain rfl := eq_int_of_eval_native ha
    exact ⟨_, rfl⟩
  | _ => exact ⟨_, rfl⟩

/-- Whole numbers are subtracted, and not refused. -/
theorem exists_sub_whole (ha : a.eval values = some (.int m)) (hb : b.eval values = some (.int n)) :
    ∃ e, a.sub b = .ok e ∧ e.eval values = some (.int (m - n)) := by
  have hsub : ∃ e, a.sub b = .ok e := by
    obtain ⟨c, hc⟩ := exists_negate_whole hb
    have hadd : ∃ e, a.add c = .ok e := exists_add_whole ha (negate_whole hb hc)
    unfold sub
    split
    · obtain rfl := eq_int_of_eval_native ha
      obtain rfl := eq_int_of_eval_native hb
      exact ⟨_, rfl⟩
    · rw [requireNumber_of_eval hb, hc]
      exact hadd
    · rw [hc]
      exact hadd
  obtain ⟨e, he⟩ := hsub
  exact ⟨e, he, sub_whole ha hb he⟩

/-! ### Products and powers -/

/-- A whole factor is taken into a variable or a multiple of one, and stays beside anything else. -/
theorem scale_whole {k : Int} {scaled : Number → Except Fault Number} {whole : Expression}
    (hb : b.eval values = some (.int n)) (hscaled : ∀ c, scaled (.int c) = .ok (.int (k * c)))
    (hwhole : whole.eval values = some (.int (k * n)))
    (h : scale (.int k) scaled b whole = .ok e) : e.eval values = some (.int (k * n)) := by
  cases b with
  | var id =>
    cases h
    exact eval_mono_int hb k
  | mono c id =>
    obtain ⟨i, j, rfl, hj, rfl⟩ := eq_int_of_eval_mono hb
    rw [scale, hscaled] at h
    cases h
    rw [eval_mono_int hj, Int.mul_assoc]
  | _ =>
    cases h
    exact hwhole

theorem mul_whole (ha : a.eval values = some (.int m)) (hb : b.eval values = some (.int n))
    (h : a.mul b = .ok e) : e.eval values = some (.int (m * n)) := by
  have whole : (product a b).eval values = some (.int (m * n)) := by
    rw [eval, ha, hb]
    rfl
  unfold mul at h
  split at h
  · obtain rfl := eq_int_of_eval_native ha
    obtain rfl := eq_int_of_eval_native hb
    cases h
    rfl
  · -- the left factor is plain
    obtain rfl := Option.some.inj ha
    split at h
    · next hone =>
      cases h
      have hm : m = 1 := by simpa using hone
      rw [hm, Int.one_mul, hb]
    · exact scale_whole hb (fun c => rfl) whole h
  · -- the right factor is plain, and goes to the left in the statement of `scale_whole`
    obtain rfl := Option.some.inj hb
    rw [Int.mul_comm] at whole ⊢
    split at h
    · next hone =>
      cases h
      have hn : n = 1 := by simpa using hone
      rw [hn, Int.one_mul, ha]
    · refine scale_whole ha (fun c => ?_) whole h
      rw [Number.mul_int, Int.mul_comm]
  · simp at h
  · simp at h
  · cases h
    exact whole

/-- A power to a whole exponent that is not negative. -/
theorem pow_whole {k : Nat} (ha : a.eval values = some (.int m))
    (h : a.pow (native (.number (.int k))) = .ok e) : e.eval values = some (.int (m ^ k)) := by
  unfold pow at h
  split at h
  · next x y heq =>
    cases heq
    obtain rfl := eq_int_of_eval_native ha
    rw [Value.pow_number, Number.pow_int] at h
    cases h
    rfl
  · obtain ⟨-, -, h⟩ := bind_eq_ok.mp h
    obtain ⟨-, -, h⟩ := bind_eq_ok.mp h
    split at h
    · next hone =>
      cases h
      have hk : (k : Int) = 1 := eq_one_of_isOne hone (eval_native values _)
      obtain rfl : k = 1 := by omega
      simpa [Int.pow_succ] using ha
    · cases h
      rw [eval, ha, eval_native]
      simp [Except.toOption, Int.pow_eq]

/-! ### Whole numbers and tables

A reference to a parameter without its indices stands for the whole table of that parameter. A table
may stand alone, but no operation takes it. -/

/-- What an expression stands for: a whole number, its value, or a table, which it is itself. -/
inductive Stands (values : Assignment) : Option Value → Expression → Prop
  | whole {n : Int} {e : Expression} (h : e.eval values = some (.int n)) :
      Stands values (some (.number (.int n))) e
  | table (rows : List (Key × Value)) : Stands values (some (.map rows)) (native (.map rows))

theorem Stands.eval_eq (h : Stands values (some (.number (.int n))) e) :
    e.eval values = some (.int n) := by
  cases h with
  | whole he => exact he

theorem add_table_left (rows : List (Key × Value)) (b : Expression) :
    add (native (.map rows)) b = .error .illTyped := by
  cases b <;> rfl

theorem add_table_right (a : Expression) (rows : List (Key × Value)) :
    add a (native (.map rows)) = .error .illTyped := by
  cases a with
  | native x => cases x <;> rfl
  | _ => rfl

theorem mul_table_left (rows : List (Key × Value)) (b : Expression) :
    mul (native (.map rows)) b = .error .illTyped := by
  cases b with
  | native y => cases y <;> rfl
  | _ => rfl

theorem mul_table_right (a : Expression) (rows : List (Key × Value)) :
    mul a (native (.map rows)) = .error .illTyped := by
  cases a with
  | native x =>
    cases x with
    | number n => cases n <;> rfl
    | _ => rfl
  | _ => rfl

theorem sub_table_left (rows : List (Key × Value)) (b : Expression) :
    sub (native (.map rows)) b = .error .illTyped := by
  cases b with
  | native y => rfl
  | neg d => exact add_table_left rows d
  | _ => rfl

theorem sub_table_right (a : Expression) (rows : List (Key × Value)) :
    sub a (native (.map rows)) = .error .illTyped := by
  cases a with
  | native x => cases x <;> rfl
  | _ => rfl

/-- An operation that takes no table and computes `f` on whole numbers. -/
def Computes (values : Assignment) (op : Expression → Expression → Except Fault Expression)
    (f : Int → Int → Int) : Prop :=
  ∀ {a b e : Expression} {o p : Option Value}, Stands values o a → Stands values p b →
    op a b = .ok e → ∃ m n, o = some (.number (.int m)) ∧ p = some (.number (.int n)) ∧
      e.eval values = some (.int (f m n))

theorem computes_of_whole {op : Expression → Expression → Except Fault Expression}
    {f : Int → Int → Int}
    (left : ∀ rows b, op (native (.map rows)) b = .error .illTyped)
    (right : ∀ a rows, op a (native (.map rows)) = .error .illTyped)
    (whole : ∀ {a b e : Expression} {m n : Int}, a.eval values = some (.int m) →
      b.eval values = some (.int n) → op a b = .ok e → e.eval values = some (.int (f m n))) :
    Computes values op f := by
  intro a b e o p ha hb h
  cases ha with
  | table rows => simp [left] at h
  | whole ha =>
    cases hb with
    | table rows => simp [right] at h
    | whole hb => exact ⟨_, _, rfl, rfl, whole ha hb h⟩

theorem add_computes : Computes values add (· + ·) :=
  computes_of_whole add_table_left add_table_right add_whole

theorem sub_computes : Computes values sub (· - ·) :=
  computes_of_whole sub_table_left sub_table_right sub_whole

theorem mul_computes : Computes values mul (· * ·) :=
  computes_of_whole mul_table_left mul_table_right mul_whole

theorem Computes.foldlM {op : Expression → Expression → Except Fault Expression}
    {f : Int → Int → Int} (hop : Computes values op f) {os : List (Option Value)}
    {es : List Expression} (hes : List.Forall₂ (Stands values) os es) {o : Option Value}
    (ha : Stands values o a) (h : es.foldlM op a = .ok e) :
    Stands values (os.foldl (fun acc o => acc.bind fun v => o.bind (Value.onWholes f v)) o) e := by
  induction hes generalizing a o with
  | nil =>
    cases h
    exact ha
  | cons hb _ ih =>
    rw [List.foldlM_cons] at h
    obtain ⟨c, hc, h⟩ := bind_eq_ok.mp h
    obtain ⟨m, n, rfl, rfl, hmn⟩ := hop ha hb hc
    exact ih (.whole hmn) h

theorem addAll_stands {os : List (Option Value)} {es : List Expression}
    (hes : List.Forall₂ (Stands values) os es) (hne : os ≠ []) (h : addAll es = .ok e) :
    Stands values (Value.combine (· + ·) os) e := by
  cases hes with
  | nil => exact absurd rfl hne
  | cons ha hrest => exact add_computes.foldlM hrest ha h

theorem mulAll_stands {os : List (Option Value)} {es : List Expression}
    (hes : List.Forall₂ (Stands values) os es) (h : mulAll es = .ok e) :
    Stands values (Value.combine (· * ·) os) e := by
  cases hes with
  | nil => simp [mulAll] at h
  | cons ha hrest => exact mul_computes.foldlM hrest ha h

theorem negate_stands {o : Option Value} (ha : Stands values o a) (h : a.negate = .ok e) :
    Stands values (o.bind (Value.onWhole (- ·))) e := by
  cases ha with
  | whole ha => exact .whole (negate_whole ha h)
  | table rows => simp [negate, Value.neg, Value.number?, Except.map] at h

theorem pow_stands {o : Option Value} {k : Nat} (ha : Stands values o a)
    (h : a.pow (native (.number (.int k))) = .ok e) :
    Stands values (o.bind (Value.onWhole (· ^ k))) e := by
  cases ha with
  | whole ha => exact .whole (pow_whole ha h)
  | table rows => simp [pow, Value.pow, Value.onNumbers, Value.number?, Except.map] at h

end Expression

end Equilibrium
