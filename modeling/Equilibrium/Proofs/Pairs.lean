/-
What a complementarity states.

A complementarity pairs the residual of an equation with a variable. Read as a mixed complementarity
condition, the residual is not negative at the lower bound of the variable, not positive at its
upper bound, and zero in between. The pair is chosen by the bounds that the variable has, and as
long as the residual stands in it the pair holds exactly where the condition does:

* `MixedCondition` - the condition, on the values of the variable and of the residual;
* `Condition.Holds`, `Condition.Tight`, `Shape.Holds` - where a pair holds;
* `Shape.pair_states` - a pair states the condition, unless it is settled;
* `EquationSystem.compileEquation_states_mixed` - so does the constraint of an equation, and it is
  settled exactly if the residual is a plain number of the sign that the one bound allows;
* `EquationSystem.settled_pairs_coincide` - a settled pair has lost its residual.
-/
import Equilibrium.Proofs.Effects
import Equilibrium.Proofs.ExactValues
import Equilibrium.Proofs.WholeExpressions

namespace Equilibrium

/-- The mixed complementarity condition on the value `x` of a variable and the value `r` of a
residual. -/
def MixedCondition (lower upper : Option ℚ) (x r : ℚ) : Prop :=
  match lower, upper with
  | some l, some u =>
      l ≤ x ∧ x ≤ u ∧ (x = l → 0 ≤ r) ∧ (x = u → r ≤ 0) ∧ (l < x → x < u → r = 0)
  | some l, none => l ≤ x ∧ 0 ≤ r ∧ (x = l ∨ r = 0)
  | none, some u => x ≤ u ∧ r ≤ 0 ∧ (x = u ∨ r = 0)
  | none, none => r = 0

/-! ### Where a pair holds -/

/-- The value of an expression that is whole or a finite double. -/
def Expression.rational? (values : Assignment) (e : Expression) : Option ℚ :=
  (e.eval values).bind Number.rational?

namespace Condition

def Holds (values : Assignment) : Condition → Prop
  | atMost low high => ∃ a b, low.rational? values = some a ∧ high.rational? values = some b ∧ a ≤ b
  | between low body high => ∃ a x b, low.rational? values = some a ∧
      body.rational? values = some x ∧ high.rational? values = some b ∧ a ≤ x ∧ x ≤ b
  | equal left right => ∃ a, left.rational? values = some a ∧ right.rational? values = some a
  | bare _ => True
  | decided holds => holds = true

/-- Whether both sides of an inequality are the same. One that is decided has no sides left. -/
def Tight (values : Assignment) : Condition → Prop
  | atMost low high => ∃ a, low.rational? values = some a ∧ high.rational? values = some a
  | _ => False

end Condition

namespace Shape

/-- Of two inequalities both hold, and one of them is tight. An expression beside two bounds on a
body is zero where neither of them is met, and otherwise of the sign that the bound asks for; beside
any other condition it is free. -/
def Holds (values : Assignment) : Shape → Prop
  | equality left right => (Condition.equal left right).Holds values
  | complementarity (.between low body high) (.bare f) => ∃ a x b r,
      low.rational? values = some a ∧ body.rational? values = some x ∧
      high.rational? values = some b ∧ f.rational? values = some r ∧
      (x = a ∧ 0 ≤ r ∨ x = b ∧ r ≤ 0 ∨ a ≤ x ∧ x ≤ b ∧ r = 0)
  | complementarity first (.bare _) => first.Holds values
  | complementarity first second =>
      first.Holds values ∧ second.Holds values ∧ (first.Tight values ∨ second.Tight values)

/-- Whether an inequality stands beside one that is decided to hold. -/
def isSettled : Shape → Bool
  | complementarity (.atMost _ _) (.decided holds) => holds
  | _ => false

end Shape

variable {values : Assignment} {residual : Expression} {id : VarId} {lower upper : Option Number}
  {l u : Option ℚ} {x r : ℚ}

namespace Condition

@[simp] theorem rational?_number (n : Number) :
    (Expression.number n).rational? values = n.rational? := rfl

/-- A residual with a value is a plain number or no plain value at all. -/
theorem native_of_rational? (hr : residual.rational? values = some r) :
    (∃ n, residual = .native (.number n) ∧ n.rational? = some r) ∨ residual.isNative = false := by
  cases residual with
  | native v =>
    cases v with
    | number n => exact .inl ⟨n, rfl, hr⟩
    | _ => simp [Expression.rational?, Expression.eval] at hr
  | _ => exact .inr rfl

theorem nonneg_eq (hr : residual.rational? values = some r) :
    nonneg residual = .ok (if residual.isNative then decided (decide (0 ≤ r))
      else atMost (.number (.int 0)) residual) := by
  rcases native_of_rational? hr with ⟨n, rfl, hn⟩ | hsymbolic
  · rw [nonneg, Number.isNonneg_of_rational? hn]
    rfl
  · cases residual with
    | native v => simp [Expression.isNative] at hsymbolic
    | _ => rfl

theorem nonpos_eq (hr : residual.rational? values = some r) :
    nonpos residual = .ok (if residual.isNative then decided (decide (r ≤ 0))
      else atMost residual (.number (.int 0))) := by
  rcases native_of_rational? hr with ⟨n, rfl, hn⟩ | hsymbolic
  · rw [nonpos, Number.isNonpos_of_rational? hn]
    rfl
  · cases residual with
    | native v => simp [Expression.isNative] at hsymbolic
    | _ => rfl

theorem zero_eq (hr : residual.rational? values = some r) :
    zero residual = if residual.isNative then decided (decide (r = 0))
      else equal residual (.number (.int 0)) := by
  rcases native_of_rational? hr with ⟨n, rfl, hn⟩ | hsymbolic
  · rw [zero, Number.isZero_of_rational? hn]
    rfl
  · cases residual with
    | native v => simp [Expression.isNative] at hsymbolic
    | _ => rfl

end Condition

namespace Shape

/-- The condition between two bounds, by where the variable stands. -/
theorem mixedCondition_between {l u x r : ℚ} (hlu : l < u) :
    x = l ∧ 0 ≤ r ∨ x = u ∧ r ≤ 0 ∨ l ≤ x ∧ x ≤ u ∧ r = 0 ↔
      MixedCondition (some l) (some u) x r := by
  show _ ↔ l ≤ x ∧ x ≤ u ∧ (x = l → 0 ≤ r) ∧ (x = u → r ≤ 0) ∧ (l < x → x < u → r = 0)
  constructor
  · rintro (⟨rfl, hr⟩ | ⟨rfl, hr⟩ | ⟨hl, hu, rfl⟩)
    · exact ⟨le_rfl, hlu.le, fun _ => hr, fun h => absurd h hlu.ne,
        fun h => absurd h (lt_irrefl _)⟩
    · exact ⟨hlu.le, le_rfl, fun h => absurd h hlu.ne', fun _ => hr,
        fun _ h => absurd h (lt_irrefl _)⟩
    · exact ⟨hl, hu, fun _ => le_rfl, fun _ => le_rfl, fun _ _ => rfl⟩
  · rintro ⟨hl, hu, hlower, hupper, hinner⟩
    rcases hl.eq_or_lt with heq | hlt
    · exact .inl ⟨heq.symm, hlower heq.symm⟩
    · rcases hu.eq_or_lt with heq | hlt'
      · exact .inr (.inl ⟨heq, hupper heq⟩)
      · exact .inr (.inr ⟨hl, hu, hinner hlt hlt'⟩)

/-- An inequality between a bound and the variable beside one between the residual and zero. -/
theorem holds_atMost {low high low' high' : Expression} {a b a' b' : ℚ}
    (ha : low.rational? values = some a) (hb : high.rational? values = some b)
    (ha' : low'.rational? values = some a') (hb' : high'.rational? values = some b') :
    (complementarity (.atMost low high) (.atMost low' high')).Holds values ↔
      a ≤ b ∧ a' ≤ b' ∧ (a = b ∨ a' = b') := by
  simp [Holds, Condition.Holds, Condition.Tight, ha, hb, ha', hb', eq_comm]

/-- An inequality beside a decided one is settled, or it holds nowhere. -/
theorem atMost_decided_states (values : Assignment) (low high : Expression) {p mixed : Prop}
    [Decidable p] (hmixed : mixed → p) :
    ((complementarity (.atMost low high) (.decided (decide p))).isSettled = false →
        ((complementarity (.atMost low high) (.decided (decide p))).Holds values ↔ mixed)) ∧
      ((complementarity (.atMost low high) (.decided (decide p))).isSettled = true ↔ p) := by
  refine ⟨fun hnot => iff_of_false ?_ ?_, decide_eq_true_iff⟩
  · rintro ⟨-, hholds, -⟩
    exact of_decide_eq_false hnot (of_decide_eq_true hholds)
  · exact fun h => of_decide_eq_false hnot (hmixed h)

theorem pair_without_bounds (hr : residual.rational? values = some r) :
    ∃ shape, Shape.pair residual id none none = .ok shape ∧ shape.isSettled = false ∧
      (shape.Holds values ↔ MixedCondition none none x r) := by
  have hzero : (Expression.number (.int 0)).rational? values = some 0 := rfl
  rw [pair, Condition.zero_eq hr]
  refine ⟨_, rfl, ?_⟩
  cases residual.isNative with
  | true =>
    refine ⟨by simp [isSettled], ?_⟩
    show decide (r = 0) = true ↔ r = 0
    exact decide_eq_true_iff
  | false =>
    refine ⟨by simp [isSettled], ?_⟩
    show (Condition.equal residual (.number (.int 0))).Holds values ↔ r = 0
    simpa [Condition.Holds, hr, hzero] using eq_comm

theorem pair_with_lower_bound {n : Number} {a : ℚ} (ha : n.rational? = some a)
    (hx : (Expression.var id).rational? values = some x)
    (hr : residual.rational? values = some r) :
    ∃ shape, Shape.pair residual id (some n) none = .ok shape ∧
      (shape.isSettled = false → (shape.Holds values ↔ MixedCondition (some a) none x r)) ∧
      (shape.isSettled = true ↔ residual.isNative = true ∧ 0 ≤ r) := by
  have hzero : (Expression.number (.int 0)).rational? values = some 0 := rfl
  rw [pair, Condition.nonneg_eq hr]
  refine ⟨_, rfl, ?_⟩
  cases residual.isNative with
  | true =>
    have hsign : MixedCondition (some a) none x r → 0 ≤ r := fun h => h.2.1
    obtain ⟨hstates, hsettled⟩ := atMost_decided_states values (.number n) (.var id) hsign
    exact ⟨hstates, hsettled.trans (by simp)⟩
  | false =>
    refine ⟨fun _ => ?_, by simp [isSettled]⟩
    show _ ↔ a ≤ x ∧ 0 ≤ r ∧ (x = a ∨ r = 0)
    rw [@eq_comm _ x a, @eq_comm _ r 0]
    exact holds_atMost ha hx hzero hr

theorem pair_with_upper_bound {n : Number} {b : ℚ} (hb : n.rational? = some b)
    (hx : (Expression.var id).rational? values = some x)
    (hr : residual.rational? values = some r) :
    ∃ shape, Shape.pair residual id none (some n) = .ok shape ∧
      (shape.isSettled = false → (shape.Holds values ↔ MixedCondition none (some b) x r)) ∧
      (shape.isSettled = true ↔ residual.isNative = true ∧ r ≤ 0) := by
  have hzero : (Expression.number (.int 0)).rational? values = some 0 := rfl
  rw [pair, Condition.nonpos_eq hr]
  refine ⟨_, rfl, ?_⟩
  cases residual.isNative with
  | true =>
    have hsign : MixedCondition none (some b) x r → r ≤ 0 := fun h => h.2.1
    obtain ⟨hstates, hsettled⟩ := atMost_decided_states values (.var id) (.number n) hsign
    exact ⟨hstates, hsettled.trans (by simp)⟩
  | false => exact ⟨fun _ => holds_atMost hx hb hr hzero, by simp [isSettled]⟩

/-- Between two bounds also a plain number is kept as it is. -/
theorem pair_between_bounds {n n' : Number} {a b : ℚ} (ha : n.rational? = some a)
    (hb : n'.rational? = some b) (hab : a < b)
    (hx : (Expression.var id).rational? values = some x)
    (hr : residual.rational? values = some r) :
    ∃ shape, Shape.pair residual id (some n) (some n') = .ok shape ∧ shape.isSettled = false ∧
      (shape.Holds values ↔ MixedCondition (some a) (some b) x r) := by
  refine ⟨_, rfl, by simp [isSettled], ?_⟩
  rw [← mixedCondition_between hab]
  simp [Holds, ha, hb, hx, hr]

/-- **A pair states the mixed complementarity condition**, unless it is settled. It is settled
exactly if the residual is a plain number of the sign that the one bound of the variable allows. -/
theorem pair_states (hl : lower.map Number.rational? = l.map some)
    (hu : upper.map Number.rational? = u.map some) (horder : ∀ a ∈ l, ∀ b ∈ u, a < b)
    (hx : (Expression.var id).rational? values = some x)
    (hr : residual.rational? values = some r) :
    ∃ shape, Shape.pair residual id lower upper = .ok shape ∧
      (shape.isSettled = false → (shape.Holds values ↔ MixedCondition l u x r)) ∧
      (shape.isSettled = true ↔ residual.isNative = true ∧
        (l.isSome ∧ u = none ∧ 0 ≤ r ∨ l = none ∧ u.isSome ∧ r ≤ 0)) := by
  cases lower with
  | none =>
    obtain rfl : l = none := by simpa using hl.symm
    cases upper with
    | none =>
      obtain rfl : u = none := by simpa using hu.symm
      obtain ⟨shape, hshape, hsettled, hstates⟩ := pair_without_bounds hr
      exact ⟨shape, hshape, fun _ => hstates, by simp [hsettled]⟩
    | some n =>
      obtain ⟨b, rfl, hb⟩ : ∃ b, u = some b ∧ n.rational? = some b := by
        simpa [eq_comm] using hu
      obtain ⟨shape, hshape, hstates, hsettled⟩ := pair_with_upper_bound hb hx hr
      exact ⟨shape, hshape, hstates, hsettled.trans (by simp)⟩
  | some n =>
    obtain ⟨a, rfl, ha⟩ : ∃ a, l = some a ∧ n.rational? = some a := by
      simpa [eq_comm] using hl
    cases upper with
    | none =>
      obtain rfl : u = none := by simpa using hu.symm
      obtain ⟨shape, hshape, hstates, hsettled⟩ := pair_with_lower_bound ha hx hr
      exact ⟨shape, hshape, hstates, hsettled.trans (by simp)⟩
    | some n' =>
      obtain ⟨b, rfl, hb⟩ : ∃ b, u = some b ∧ n'.rational? = some b := by
        simpa [eq_comm] using hu
      obtain ⟨shape, hshape, hsettled, hstates⟩ :=
        pair_between_bounds ha hb (horder a rfl b rfl) hx hr
      exact ⟨shape, hshape, fun _ => hstates, by simp [hsettled]⟩

end Shape

/-! ### The constraint of an equation -/

/-- Two expressions have the values `a` and `b`, and their difference is exact: they are whole
numbers, or subtracting them is neither refused nor rounded. -/
def Expression.ExactDifference (values : Assignment) (left right : Expression) (a b : ℚ) : Prop :=
  left.rational? values = some a ∧ right.rational? values = some b ∧
    ((∃ j k : Int, left.eval values = some (.int j) ∧ right.eval values = some (.int k)) ∨
      ∃ e, left.sub right = .ok e ∧ e.rational? values = some (a - b))

theorem Expression.ExactDifference.exists_sub {left right : Expression} {a b : ℚ}
    (h : ExactDifference values left right a b) :
    ∃ e, left.sub right = .ok e ∧ e.rational? values = some (a - b) := by
  obtain ⟨ha, hb, ⟨j, k, hj, hk⟩ | hsub⟩ := h
  · obtain ⟨e, hsub, he⟩ := exists_sub_whole hj hk
    refine ⟨e, hsub, ?_⟩
    rw [rational?, hj] at ha
    rw [rational?, hk] at hb
    obtain rfl : (j : ℚ) = a := Option.some.inj ha
    obtain rfl : (k : ℚ) = b := Option.some.inj hb
    rw [rational?, he]
    exact congrArg some (Int.cast_sub j k)
  · exact hsub

/-- The parts of an equation whose sides compile, paired with a variable that has bounds. -/
theorem Equation.parts_of_pairing {vars : List Variable} {s : Scope} {env : Bindings}
    {lhs rhs t : Term} {left right : Expression} {v : Variable} {shape : Shape}
    (hleft : lhs.compiled s env = .ok left) (hright : rhs.compiled s env = .ok right)
    (hsub : left.sub right = .ok residual)
    (hpairing : (Pairing.compile s t env).1 = .ok (.ofVar id)) (hv : vars[id]? = some v)
    (hbounds : v.HasBounds l u)
    (hshape : Shape.pair residual id v.lower v.upper = .ok shape) :
    parts vars s (some t) (.eq lhs rhs) env = .ok (residual, shape) := by
  have hpair : (Handle.ofVar id).pair vars residual = .ok shape := by
    rw [Handle.pair, Handle.varId?, Option.bind_some, hv, Option.map_some]
    show v.readLower >>= _ = _
    rw [hbounds.readLower_eq]
    show v.readUpper >>= _ = _
    rw [hbounds.readUpper_eq]
    exact hshape
  have hresult : (Equation.shape vars s (some t) left right residual env).1 = .ok shape := by
    rw [Equation.shape, Scoped.fst_bind (Pairing.compile_restores s t), hpairing]
    exact hpair
  rw [parts, sides]
  show lhs.compiled s env >>= _ = _
  rw [hleft]
  show rhs.compiled s env >>= _ = _
  rw [hright]
  show left.sub right >>= _ = _
  rw [hsub]
  show (Equation.shape vars s (some t) left right residual env).1 >>= _ = _
  rw [hresult]
  rfl

namespace EquationSystem

open Equilibrium.Action

/-- **The constraint of an equation states the mixed complementarity condition.** An equation whose
sides compile, paired with a variable with any bounds or none, is compiled. Where the sides and
their difference have exact values, the pair holds exactly if the condition does, unless it is
settled. It is settled exactly if the residual is a plain number, the variable has one bound, and
the residual has the sign that this bound allows. -/
theorem compileEquation_states_mixed {s : EquationSystem} {m : Model} {lhs rhs t : Term}
    {params : Source} {indices : List String} {env : Bindings} {left right : Expression}
    {v : Variable} {a b : ℚ} (hm : s.model = some m) (name : String)
    (hleft : lhs.compiled (s.scope params indices) env = .ok left)
    (hright : rhs.compiled (s.scope params indices) env = .ok right)
    (hpairing : (Pairing.compile (s.scope params indices) t env).1 = .ok (.ofVar id))
    (hv : s.vars[id]? = some v) (hbounds : v.HasBounds l u)
    (horder : ∀ a ∈ l, ∀ b ∈ u, a < b) (hx : (Expression.var id).rational? values = some x)
    (hsides : Expression.ExactDifference values left right a b) :
    ∃ c, ((compileEquation (.eq lhs rhs) params indices env (some t) name).effect s).2 = .ok c ∧
      left.sub right = .ok c.residual ∧
      (c.shape.isSettled = false →
        (c.shape.Holds values ↔ MixedCondition l u x (a - b))) ∧
      (c.shape.isSettled = true ↔ c.residual.isNative = true ∧
        (l.isSome ∧ u = none ∧ 0 ≤ a - b ∨ l = none ∧ u.isSome ∧ a - b ≤ 0)) := by
  obtain ⟨residual, hsub, hr⟩ := hsides.exists_sub
  obtain ⟨shape, hshape, hstates, hsettled⟩ :=
    Shape.pair_states hbounds.1 hbounds.2 horder hx hr
  have hparts : Equation.parts s.vars (s.scope params indices) (some t) (.eq lhs rhs) env =
      .ok (residual, shape) :=
    Equation.parts_of_pairing hleft hright hsub hpairing hv hbounds hshape
  refine ⟨⟨m.freshName name, residual, shape⟩, ?_, hsub, hstates, hsettled⟩
  rw [effect_compileEquation hm, hparts]

/-- The difference `q - 1` stands beside the lower bound of `p`. With `q` at three and `p` at its
bound the pair holds. -/
theorem compileEquation_states_mixed_at_lower_bound :
    let p : Variable := ⟨"p", some (.int 0), false, some (.int 0), none⟩
    let s : EquationSystem := { new (some (.empty "model")) with
      vars := [p, ⟨"q", some (.int 3), false, none, none⟩]
      registry := ⟨[("p", .ofVar 0), ("q", .ofVar 1)]⟩ }
    let left : Expression := .var 1
    let right : Expression := .number (.int 1)
    s.model = some (.empty "model") ∧ s.vars[0]? = some p ∧ p.HasBounds (some 0) none ∧
      Expression.ExactDifference s.assignment left right 3 1 ∧
      ∃ c, ((compileEquation (.eq (.var "q" none) (.const (.number (.int 1)))) .absent []
          Table.empty (some (.plain (.text "p"))) "market").effect s).2 = .ok c ∧
        left.sub right = .ok c.residual ∧ c.shape.Holds s.assignment := by
  intro p s left right
  have hsides : Expression.ExactDifference s.assignment left right 3 1 :=
    ⟨rfl, rfl, .inl ⟨3, 1, rfl, rfl⟩⟩
  have hbounds : p.HasBounds (some 0) none := ⟨rfl, rfl⟩
  have hleft : Term.compiled (s.scope .absent []) Table.empty (.var "q" none) = .ok left := rfl
  have hright : Term.compiled (s.scope .absent []) Table.empty (.const (.number (.int 1))) =
      .ok right := rfl
  have hpairing : (Pairing.compile (s.scope .absent []) (.plain (.text "p")) Table.empty).1 =
      .ok (.ofVar 0) := rfl
  have hx : (Expression.var 0).rational? s.assignment = some 0 := rfl
  have hp : s.vars[0]? = some p := rfl
  obtain ⟨c, hc, hsub, hstates, hsettled⟩ := compileEquation_states_mixed rfl "market" hleft hright
    hpairing hp hbounds (by simp) hx hsides
  refine ⟨rfl, hp, hbounds, hsides, c, hc, hsub, (hstates ?_).mpr ?_⟩
  · rw [Bool.eq_false_iff]
    intro htrue
    obtain ⟨hnative, -⟩ := hsettled.mp htrue
    have hsum : left.sub right = .ok (.linear [left, .number (.int (-1))]) := rfl
    rw [← Except.ok.inj (hsum.symm.trans hsub)] at hnative
    exact absurd hnative Bool.false_ne_true
  · exact ⟨le_rfl, by norm_num, .inl rfl⟩

/-- With a lower bound on `p` the equations `0 = 0` and `5 = 0` compile to the same pair, and their
residuals are not in it. At `p = 1` the first condition holds and the second one does not, so no
reading of pairs gives both conditions. -/
theorem settled_pairs_coincide :
    let s : EquationSystem := { new (some (.empty "model")) with
      vars := [⟨"p", some (.int 1), false, some (.int 0), none⟩]
      registry := ⟨[("p", .ofVar 0)]⟩ }
    let result (k : Int) : Except Fault Shape :=
      ((compileEquation (.eq (.const (.number (.int k))) (.const (.number (.int 0)))) .absent []
        Table.empty (some (.plain (.text "p"))) "market").effect s).2.map Constraint.shape
    result 0 = .ok (.complementarity (.atMost (.number (.int 0)) (.var 0)) (.decided true)) ∧
      result 5 = result 0 ∧
      MixedCondition (some 0) none 1 0 ∧ ¬ MixedCondition (some 0) none 1 5 ∧
      ¬ ∃ reading : Shape → Assignment → Prop, ∀ (k : Int) shape, result k = .ok shape →
        (reading shape s.assignment ↔ MixedCondition (some 0) none 1 k) := by
  intro s result
  have hzero : MixedCondition (some 0) none 1 0 := ⟨by norm_num, le_rfl, .inr rfl⟩
  have hfive : ¬ MixedCondition (some 0) none 1 5 := by
    rintro ⟨-, -, hbound | hresidual⟩
    · exact absurd hbound (by norm_num)
    · exact absurd hresidual (by norm_num)
  have hresult : result 0 =
      .ok (.complementarity (.atMost (.number (.int 0)) (.var 0)) (.decided true)) := rfl
  have hsame : result 5 = result 0 := rfl
  refine ⟨hresult, hsame, hzero, hfive, ?_⟩
  rintro ⟨reading, hreading⟩
  have hholds := (hreading 0 _ hresult).mpr (by simpa using hzero)
  exact hfive (by simpa using (hreading 5 _ (hsame.trans hresult)).mp hholds)

end EquationSystem

end Equilibrium
