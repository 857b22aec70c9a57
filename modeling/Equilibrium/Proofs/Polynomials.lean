/-
Polynomial terms over whole numbers.

A polynomial term is built from references and whole constants by sums, products, negatives and
powers to whole exponents, over lists of terms or over domains. Where all the names in it stand for
whole numbers it has a whole value, which is read off the term itself, without compiling it:

* `Term.value` - the value of a polynomial term, by recursion on the term;
* `Term.compiled_stands` - what a polynomial term compiles to stands for that value;
* `EquationSystem.polynomial_value` - so a compiled polynomial has this value wherever the variables
  hold whole numbers, the residual of an equation between two of them is the difference of their
  values, and its constraint holds exactly where the two values agree.

A reference to a parameter without the indices of its entries stands for the table of the parameter.
It is a value, but no number, and nothing is computed with it.
-/
import Equilibrium.Proofs.DoubleRange
import Equilibrium.Proofs.Grounding
import Equilibrium.Proofs.PlacedEquations
import Equilibrium.Proofs.WholeExpressions
import Equilibrium.Proofs.WholeValues

namespace Equilibrium

/-- What the names in a term stand for: variables by qualified name, parameters by name and indices,
and the indices of the instance. -/
structure Interpretation where
  vars : String → Option Int
  params : String → List String → Option Value
  indices : List String

/-- What the names of a scope stand for, where the variables have the given values. -/
def Scope.interpretation (s : Scope) (values : Assignment) : Interpretation where
  vars name := (s.registry.get? name).bind (Handle.whole? values)
  params name indices := (s.params.get name indices).toOption
  indices := s.indices

/-- The element of an index, if it stands for one. -/
def Elements.element (σ : Elements) : IndexEntry → Option String
  | .free name => σ name
  | .literal v => some v.display

/-- The indices of a reference: its own ones, or those of the instance. -/
def Interpretation.resolve (I : Interpretation) (σ : Elements) :
    Option (List IndexEntry) → Option (List String)
  | none => some I.indices
  | some entries => entries.mapM σ.element

namespace Term

mutual

/-- The value of a polynomial term, at a place where index names stand for the given elements. -/
def value (I : Interpretation) (σ : Elements) : Term → Option Value
  | var name own => do
      let indices ← I.resolve σ own
      let n ← I.vars (qualifiedName name indices)
      return .number (.int n)
  | param name own => do
      let indices ← I.resolve σ own
      I.params name indices
  | const v => some v
  | add terms => Value.combine (· + ·) (valueAll I σ terms)
  | mul factors => Value.combine (· * ·) (valueAll I σ factors)
  | pow base exponent => match value I σ exponent with
    | some (.number (.int (.ofNat k))) => (value I σ base).bind (Value.onWhole (· ^ k))
    | _ => none
  | neg body => (value I σ body).bind (Value.onWhole (- ·))
  | sum i domain body =>
      Value.combine (· + ·) (domain.map fun v => value I (σ.set i v.display) body)
  | prod i domain body =>
      Value.combine (· * ·) (domain.map fun v => value I (σ.set i v.display) body)
  | _ => none
termination_by structural t => t

/-- The values of a list of terms. -/
def valueAll (I : Interpretation) (σ : Elements) : List Term → List (Option Value)
  | [] => []
  | t :: rest => value I σ t :: valueAll I σ rest
termination_by structural ts => ts

end

mutual

/-- Polynomial terms: references and whole constants under sums, products, negatives and powers to
whole exponents that are not negative. A sum of no terms at all is not among them. -/
def isPolynomial : Term → Bool
  | var _ _ => true
  | param _ _ => true
  | const v => v.whole?.isSome
  | add terms => !terms.isEmpty && allPolynomial terms
  | mul factors => allPolynomial factors
  | pow base (const (.number (.int (.ofNat _)))) => isPolynomial base
  | neg body => isPolynomial body
  | sum _ _ body => isPolynomial body
  | prod _ _ body => isPolynomial body
  | _ => false
termination_by structural t => t

/-- Whether all terms of a list are polynomial. -/
def allPolynomial : List Term → Bool
  | [] => true
  | t :: rest => isPolynomial t && allPolynomial rest
termination_by structural ts => ts

end

theorem valueAll_eq_map (I : Interpretation) (σ : Elements) (terms : List Term) :
    valueAll I σ terms = terms.map (value I σ) := by
  induction terms with
  | nil => rfl
  | cons t rest ih => rw [valueAll, ih, List.map_cons]

theorem allPolynomial_iff (terms : List Term) :
    allPolynomial terms = true ↔ ∀ t ∈ terms, t.isPolynomial = true := by
  induction terms with
  | nil => simp [allPolynomial]
  | cons t rest ih => simp [allPolynomial, ih]

/-- The exponent of a polynomial power is a whole constant that is not negative. -/
theorem isPolynomial_pow {base exponent : Term} (h : (pow base exponent).isPolynomial = true) :
    ∃ k : Nat, exponent = const (.number (.int k)) ∧ base.isPolynomial = true := by
  unfold isPolynomial at h
  split at h
  all_goals try contradiction
  next k hterm =>
    cases hterm
    exact ⟨k, rfl, h⟩

end Term

/-! ### What a polynomial term compiles to -/

/-- A whole number and a table stand for themselves. -/
theorem Expression.stands_native {values : Assignment} {v : Value} (h : v.isWholeTable = true) :
    Stands values (some v) (native v) := by
  unfold Value.isWholeTable at h
  split at h
  · exact .whole (eval_native values _)
  · exact .table _
  · simp at h

/-- An index that resolves among the bindings has the element it stands for there. -/
theorem Elements.element_eq_some {env : Bindings} {entry : IndexEntry} {element : String}
    (h : Scope.element env entry = .ok element) :
    Elements.element env.get? entry = some element := by
  cases entry with
  | free name =>
    rw [Scope.element, Bindings.resolve] at h
    split at h
    · next e he =>
      cases h
      exact he
    · simp at h
  | literal v =>
    cases h
    rfl

/-- Indices that resolve among the bindings are those that the index names stand for. -/
theorem Scope.resolve_interpretation {s : Scope} {values : Assignment}
    {own : Option (List IndexEntry)} {env : Bindings} {indices : List String}
    (h : Scope.resolveIndices s.indices own env = .ok indices) :
    (s.interpretation values).resolve env.get? own = some indices := by
  cases own with
  | none =>
    cases h
    rfl
  | some entries =>
    change entries.mapM (Scope.element env) = .ok indices at h
    show entries.mapM (Elements.element env.get?) = some indices
    induction entries generalizing indices with
    | nil =>
      cases h
      rfl
    | cons entry rest ih =>
      rw [List.mapM_cons] at h
      obtain ⟨element, helement, h⟩ := bind_eq_ok.mp h
      obtain ⟨elements, helements, h⟩ := bind_eq_ok.mp h
      cases h
      rw [List.mapM_cons, Elements.element_eq_some helement, ih helements]
      rfl

namespace Term

variable {s : Scope} {values : Assignment}

/-- **Compiling a polynomial.** Where the registered handles and the parameters hold whole numbers,
a polynomial term compiles to an expression that stands for its value. -/
theorem compiled_stands
    (hvars : s.registry.HoldsWhole values) (hparams : s.params.HoldsWhole) {t : Term}
    (ht : t.isPolynomial = true) {env : Bindings} {e : Expression}
    (h : compiled s env t = .ok e) :
    Expression.Stands values (t.value (s.interpretation values) env.get?) e := by
  induction t generalizing env e with
  | var name own =>
    rw [compiled_var] at h
    obtain ⟨handle, hhandle, rfl⟩ := map_eq_ok.mp h
    obtain ⟨indices, hindices, hget⟩ := bind_eq_ok.mp hhandle
    rw [Scope.handle] at hget
    split at hget
    · next g hg =>
      cases hget
      obtain ⟨n, hn⟩ := hvars _ _ hg
      have hvar : (s.interpretation values).vars (qualifiedName name indices) = some n := by
        show (s.registry.get? _).bind (Handle.whole? values) = some n
        rw [hg, Option.bind_some, hn]
      rw [value, Scope.resolve_interpretation hindices, Option.bind_eq_bind, Option.bind_some, hvar]
      exact .whole (Handle.eval_of_whole? hn)
    · simp at hget
  | param name own =>
    rw [compiled_param] at h
    obtain ⟨v, hv, rfl⟩ := map_eq_ok.mp h
    obtain ⟨indices, hindices, hget⟩ := bind_eq_ok.mp hv
    rw [value, Scope.resolve_interpretation hindices, Option.bind_eq_bind, Option.bind_some]
    show Expression.Stands values (s.params.get name indices).toOption _
    rw [hget]
    exact Expression.stands_native (hparams name indices v hget)
  | const v =>
    cases h
    obtain ⟨n, hn⟩ := Option.isSome_iff_exists.mp ht
    rw [value, Value.eq_int_of_whole? hn]
    exact .whole (Expression.eval_native values _)
  | add terms ih =>
    rw [compiled_add] at h
    obtain ⟨es, hes, hadd⟩ := bind_eq_ok.mp h
    rw [isPolynomial, Bool.and_eq_true, allPolynomial_iff] at ht
    rw [value, valueAll_eq_map]
    refine Expression.addAll_stands (forall₂_of_mapM hes fun u hu a ha => ?_)
      (by simpa using ht.1) hadd
    exact ih u hu (ht.2 u hu) ha
  | mul factors ih =>
    rw [compiled_mul] at h
    obtain ⟨es, hes, hmul⟩ := bind_eq_ok.mp h
    rw [isPolynomial, allPolynomial_iff] at ht
    rw [value, valueAll_eq_map]
    refine Expression.mulAll_stands (forall₂_of_mapM hes fun u hu a ha => ?_) hmul
    exact ih u hu (ht u hu) ha
  | pow base exponent ihb ihe =>
    obtain ⟨k, rfl, hbase⟩ := isPolynomial_pow ht
    rw [compiled_pow, compiled_const] at h
    obtain ⟨a, ha, hpow⟩ := bind_eq_ok.mp h
    rw [value, value]
    exact Expression.pow_stands (ihb hbase ha) hpow
  | neg body ih =>
    rw [compiled_neg] at h
    obtain ⟨a, ha, hneg⟩ := bind_eq_ok.mp h
    exact Expression.negate_stands (ih ht ha) hneg
  | sum i domain body ih =>
    rw [compiled_sum] at h
    split at h
    · simp at h
    · next hdomain =>
      obtain ⟨es, hes, hadd⟩ := bind_eq_ok.mp h
      rw [value]
      refine Expression.addAll_stands (forall₂_of_mapM hes fun v _ a ha => ?_)
        (by simpa using hdomain) hadd
      -- the copy for `v` was compiled under one more binding, so `ih` is used at these bindings
      rw [← Elements.get?_bind]
      exact ih ht ha
  | prod i domain body ih =>
    rw [compiled_prod] at h
    split at h
    · simp at h
    · obtain ⟨es, hes, hmul⟩ := bind_eq_ok.mp h
      rw [value]
      refine Expression.mulAll_stands (forall₂_of_mapM hes fun v _ a ha => ?_) hmul
      rw [← Elements.get?_bind]
      exact ih ht ha
  | _ => simp [isPolynomial] at ht

end Term

/-! ### Equations between polynomials -/

/-- An equality of sides with whole values is written between expressions with whole values, which
agree exactly where the sides do. -/
theorem Shape.equate_whole {values : Assignment} {left right residual : Expression} {m n : Int}
    (hleft : left.eval values = some (.int m)) (hright : right.eval values = some (.int n))
    (hresidual : residual.eval values = some (.int (m - n))) :
    ∃ a b i j, equate left right residual = .equality a b ∧ a.eval values = some (.int i) ∧
      b.eval values = some (.int j) ∧ (i = j ↔ m = n) := by
  rw [equate]
  split
  · next hnative =>
    cases residual with
    | native v =>
      obtain rfl := Expression.eq_int_of_eval_native hresidual
      split
      · next hzero =>
        have : m - n = 0 := by simpa [Expression.isZero] using hzero
        exact ⟨_, _, 0, 0, rfl, rfl, rfl, by omega⟩
      · next hzero =>
        have : m - n ≠ 0 := by simpa [Expression.isZero] using hzero
        exact ⟨_, _, 1, 0, rfl, rfl, rfl, by omega⟩
    | _ => simp [Expression.isNative] at hnative
  · split
    · exact ⟨right, left, n, m, rfl, hright, hleft, eq_comm⟩
    · exact ⟨left, right, m, n, rfl, hleft, hright, Iff.rfl⟩

namespace EquationSystem

/-- **Polynomials keep their values.** In a system with a parameter source of whole numbers, let a
polynomial term compile. Wherever the variables hold whole numbers the term has a value: a whole
number, which is the value of the expression too, or a table, which is the expression itself.

Let an equation between two polynomials compile, without a complementary variable. The constraint is
a component of the model. Wherever the variables hold whole numbers both sides have whole values;
the residual is their difference, or an overflow beyond the range of doubles; and the constraint is
an equality of two expressions whose values agree exactly where those of the sides do. -/
theorem polynomial_value (s : EquationSystem) (params : Source) (indices : List String)
    (env : Bindings) (hparams : params.HoldsWhole) :
    (∀ (t : Term) (e : Expression), t.isPolynomial = true →
      (t.compile (s.scope params indices) env).1 = .ok e →
      ∀ values : Assignment, s.registry.HoldsWhole values →
        ∃ v, t.value ((s.scope params indices).interpretation values) env.get? = some v ∧
          ((∃ n, v = .number (.int n) ∧ e.eval values = some (.int n)) ∨
            ∃ rows, v = .map rows ∧ e = .native v)) ∧
    ∀ (lhs rhs : Term) (name : String) (c : Constraint), lhs.isPolynomial = true →
      rhs.isPolynomial = true →
      (compileEquation (.eq lhs rhs) params indices env none name s).result = .ok c →
      (∃ m, (compileEquation (.eq lhs rhs) params indices env none name s).system.model = some m ∧
        m.get? c.name = some (.constraint c)) ∧
      ∀ values : Assignment, s.registry.HoldsWhole values →
        ∃ l r, lhs.value ((s.scope params indices).interpretation values) env.get? =
            some (.number (.int l)) ∧
          rhs.value ((s.scope params indices).interpretation values) env.get? =
            some (.number (.int r)) ∧
          c.residualValue values = (if (l - r).natAbs < Binary.limit
            then .ok (some (Binary.ofInt (l - r))) else .error .overflow) ∧
          ∃ a b i j, c.shape = .equality a b ∧ a.eval values = some (.int i) ∧
            b.eval values = some (.int j) ∧ (i = j ↔ l = r) := by
  constructor
  · intro t e ht h values hvars
    have hstands := Term.compiled_stands (s := s.scope params indices) hvars hparams ht h
    generalize t.value _ _ = o at hstands ⊢
    cases hstands with
    | whole he => exact ⟨_, rfl, .inl ⟨_, rfl, he⟩⟩
    | table rows => exact ⟨_, rfl, .inr ⟨rows, rfl, rfl⟩⟩
  · intro lhs rhs name c hlhs hrhs h
    obtain ⟨lhs', rhs', m, m', hsides, -, hc, hsystem, hget⟩ := compileEquation_eq_ok h
    cases hsides
    obtain ⟨left, right, hleft, hright, hresidual, hshape, -⟩ := Equation.compile_eq_ok hc
    refine ⟨⟨m', by rw [hsystem], hget⟩, fun values hvars => ?_⟩
    have hl := Term.compiled_stands (s := s.scope params indices) hvars hparams hlhs hleft
    have hr := Term.compiled_stands (s := s.scope params indices) hvars hparams hrhs hright
    obtain ⟨l, r, hl', hr', hvalue⟩ := Expression.sub_computes hl hr hresidual
    rw [hl'] at hl
    rw [hr'] at hr
    refine ⟨l, r, hl', hr', ?_, ?_⟩
    · rw [Constraint.residualValue_of_eval_eq_some hvalue, Number.toReal, Number.realOfInt_eq]
      split <;> rfl
    · have hequate : Shape.equate left right c.residual = c.shape := Except.ok.inj hshape
      rw [← hequate]
      exact Shape.equate_whole hl.eval_eq hr.eval_eq hvalue

/-- The sum of `p i * x i ^ 2` over two elements, against a constant: `2 * 3 ^ 2 + 5 * 2 ^ 2` is
`8` more than `30`. -/
theorem polynomial_value_weighted_squares :
    let s : EquationSystem := { new (some (.empty "model")) with
      vars := [⟨"x_a", some (.int 3), false, none, none⟩,
        ⟨"x_b", some (.int (-2)), false, none, none⟩]
      registry := ⟨[("x_a", .ofVar 0), ("x_b", .ofVar 1)]⟩ }
    let params : Source := .tables [(.text "p",
      .map [(.text "a", .number (.int 2)), (.text "b", .number (.int 5))])]
    let lhs : Term := .sum "i" [.text "a", .text "b"] (.mul [.param "p" (some [.free "i"]),
      .pow (.var "x" (some [.free "i"])) (.const (.number (.int 2)))])
    let rhs : Term := .const (.number (.int 30))
    params.HoldsWhole ∧ s.registry.HoldsWhole s.assignment ∧ lhs.isPolynomial = true ∧
      rhs.isPolynomial = true ∧
      ∃ c, (compileEquation (.eq lhs rhs) params [] Table.empty none "square" s).result = .ok c ∧
        c.residualValue s.assignment = .ok (some (Binary.ofInt 8)) := by
  intro s params lhs rhs
  have hparams : params.HoldsWhole := Source.holdsWhole_tables rfl
  have hvars : s.registry.HoldsWhole s.assignment :=
    Table.holdsWhole_of_entries (by decide)
  refine ⟨hparams, hvars, rfl, rfl, _, rfl, ?_⟩
  obtain ⟨l, r, hl, hr, hvalue, -⟩ :=
    ((polynomial_value s params [] Table.empty hparams).2 lhs rhs "square" _ rfl rfl rfl).2
      s.assignment hvars
  change some (Value.number (.int 38)) = _ at hl
  change some (Value.number (.int 30)) = _ at hr
  cases hl
  cases hr
  rw [hvalue, if_pos (by rw [Binary.limit]; omega)]
  rfl

end EquationSystem

end Equilibrium
