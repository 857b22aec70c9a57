/-
What a compiled equation consists of.

An equation that compiles has two sides that compile under the bindings of its instance, their
difference as residual, and a component in the model under the name it carries:

* `Equation.parts` - the residual and the constraint of an equation, read as a function of the
  bindings; the model and the component name take no part in them;
* `Equation.compile_eq_ok` - the parts of a compiled equation;
* `EquationSystem.compileEquation_apply` - what compiling an equation leaves, and what it returns;
* `EquationSystem.compileEquation_eq_ok` - where the equation ends up.
-/
import Equilibrium.EquationSystem.Equations
import Equilibrium.Proofs.Compiled
import Equilibrium.Proofs.FreshNames

namespace Equilibrium

namespace Equation

theorem sides_eq_ok {t lhs rhs : Term} : sides t = .ok (lhs, rhs) ↔ t = .eq lhs rhs := by
  cases t with
  | eq a b => simp [sides]
  | _ => simp [sides]

/-- The residual and the constraint that an equation compiles to under some bindings. -/
def parts (vars : List Variable) (s : Scope) (pairing : Option Term) (equation : Term)
    (env : Bindings) : Except Fault (Expression × Shape) := do
  let (lhs, rhs) ← sides equation
  let left ← lhs.compiled s env
  let right ← rhs.compiled s env
  let residual ← left.sub right
  let shape ← (shape vars s pairing left right residual env).1
  return (residual, shape)

variable {vars : List Variable} {s : Scope} {pairing : Option Term} {name : String} {lhs rhs : Term}
  {env : Bindings} {c : Constraint}

/-- The name of a constraint is the only part of it that is not read off the equation. -/
theorem compile_fst : (compile vars s pairing name lhs rhs env).1 =
    (parts vars s pairing (.eq lhs rhs) env).map fun p => ⟨name, p.1, p.2⟩ := by
  rw [compile, Scoped.fst_bind (lhs.compile_restores s)]
  show _ = Except.map _ (Term.compiled s env lhs >>= _)
  rw [Term.compiled]
  cases (lhs.compile s env).1 with
  | error e => rfl
  | ok left =>
    show ((rhs.compile s >>= _) env).1 = Except.map _ (Term.compiled s env rhs >>= _)
    rw [Scoped.fst_bind (rhs.compile_restores s), Term.compiled]
    cases (rhs.compile s env).1 with
    | error e => rfl
    | ok right =>
      show ((Scoped.lift (left.sub right) >>= _) env).1 = Except.map _ (left.sub right >>= _)
      rw [Scoped.fst_bind (Bindings.lift_restores _)]
      show left.sub right >>= _ = _
      cases left.sub right with
      | error e => rfl
      | ok residual =>
        show ((shape vars s pairing left right residual >>= _) env).1 = Except.map _
          ((shape vars s pairing left right residual env).1 >>= _)
        rw [Scoped.fst_bind (shape_restores vars s pairing left right residual)]
        cases (shape vars s pairing left right residual env).1 <;> rfl

theorem parts_eq_ok {equation : Term} {p : Expression × Shape}
    (h : parts vars s pairing equation env = .ok p) :
    ∃ lhs rhs left right, equation = .eq lhs rhs ∧ Term.compiled s env lhs = .ok left ∧
      Term.compiled s env rhs = .ok right ∧ left.sub right = .ok p.1 ∧
      (shape vars s pairing left right p.1 env).1 = .ok p.2 := by
  obtain ⟨⟨lhs, rhs⟩, hsides, h⟩ := bind_eq_ok.mp h
  obtain ⟨left, hleft, h⟩ := bind_eq_ok.mp h
  obtain ⟨right, hright, h⟩ := bind_eq_ok.mp h
  obtain ⟨residual, hresidual, h⟩ := bind_eq_ok.mp h
  obtain ⟨shape, hshape, h⟩ := bind_eq_ok.mp h
  cases h
  exact ⟨lhs, rhs, left, right, sides_eq_ok.mp hsides, hleft, hright, hresidual, hshape⟩

/-- The sides, the residual and the shape of an equation that compiles. -/
theorem compile_eq_ok (h : (compile vars s pairing name lhs rhs env).1 = .ok c) :
    ∃ left right, Term.compiled s env lhs = .ok left ∧ Term.compiled s env rhs = .ok right ∧
      left.sub right = .ok c.residual ∧
      (shape vars s pairing left right c.residual env).1 = .ok c.shape ∧ c.name = name := by
  rw [compile_fst] at h
  obtain ⟨p, hp, rfl⟩ := map_eq_ok.mp h
  obtain ⟨lhs', rhs', left, right, heq, hleft, hright, hresidual, hshape⟩ := parts_eq_ok hp
  cases heq
  exact ⟨left, right, hleft, hright, hresidual, hshape, rfl⟩

end Equation

/-- The model with one more constraint, under its own name. -/
def Model.place (m : Model) (c : Constraint) : Model :=
  { m with components := m.components.insert c.name (.constraint c) }

theorem Model.add_constraint {m : Model} {c : Constraint} (h : m.contains c.name = false) :
    m.add c.name (.constraint c) = .ok (m.place c) :=
  add_eq_ok.mpr ⟨h, rfl⟩

namespace EquationSystem

theorem requireModel_eq_ok {s : EquationSystem} {m : Model} :
    s.requireModel = .ok m ↔ s.model = some m := by
  rw [requireModel]
  split <;> simp [*]

variable {s : EquationSystem} {equation : Term} {params : Source} {indices : List String}
  {env : Bindings} {pairing : Option Term} {name : String} {m : Model} {c : Constraint}

/-- The constraint of an equation is placed under the first free name. -/
theorem placeEquation_fst (hm : s.model = some m) :
    (s.placeEquation equation params indices pairing name env).1 =
      (Equation.parts s.vars (s.scope params indices) pairing equation env).map fun p =>
        (m.place ⟨m.freshName name, p.1, p.2⟩, ⟨m.freshName name, p.1, p.2⟩) := by
  have hrequire : s.requireModel = .ok m := requireModel_eq_ok.mpr hm
  rw [placeEquation, Scoped.fst_bind (Bindings.lift_restores _)]
  show Equation.sides equation >>= _ = Except.map _ (Equation.sides equation >>= _)
  cases hsides : Equation.sides equation with
  | error e => rfl
  | ok sides =>
    obtain ⟨lhs, rhs⟩ := sides
    obtain rfl := Equation.sides_eq_ok.mp hsides
    show ((Scoped.lift s.requireModel >>= _) env).1 = Except.map _
      (Equation.parts s.vars (s.scope params indices) pairing (.eq lhs rhs) env)
    rw [Scoped.fst_bind (Bindings.lift_restores _)]
    show s.requireModel >>= _ = _
    rw [hrequire]
    show ((Equation.compile _ _ _ _ _ _ >>= _) env).1 = _
    rw [Scoped.fst_bind (Equation.compile_restores _ _ _ _ _ _), Equation.compile_fst]
    cases Equation.parts s.vars (s.scope params indices) pairing (.eq lhs rhs) env with
    | error e => rfl
    | ok p =>
      show ((Scoped.lift (m.add _ _) >>= _) env).1 = _
      rw [Scoped.fst_bind (Bindings.lift_restores _)]
      show m.add (m.freshName name) (.constraint ⟨m.freshName name, p.1, p.2⟩) >>= _ = _
      rw [Model.add_constraint (c := ⟨m.freshName name, p.1, p.2⟩) (m.contains_freshName name)]
      rfl

/-- Without a model no equation is compiled. -/
theorem compileEquation_noModel (hm : s.model = none) :
    ∃ e, compileEquation equation params indices env pairing name s = ⟨s, [], .error e⟩ := by
  have hrequire : s.requireModel = .error .noModel := by
    rw [requireModel, hm]
  have herror : ∃ e, (s.placeEquation equation params indices pairing name env).1 = .error e := by
    rw [placeEquation, Scoped.fst_bind (Bindings.lift_restores _)]
    show ∃ e, Equation.sides equation >>= _ = .error e
    cases Equation.sides equation with
    | error e => exact ⟨e, rfl⟩
    | ok sides =>
      show ∃ e, ((Scoped.lift s.requireModel >>= _) env).1 = .error e
      rw [Scoped.fst_bind (Bindings.lift_restores _)]
      show ∃ e, s.requireModel >>= _ = .error e
      rw [hrequire]
      exact ⟨.noModel, rfl⟩
  obtain ⟨e, he⟩ := herror
  exact ⟨e, by rw [compileEquation, he]⟩

/-- Compiling an equation adds its constraint to the model, or leaves the system as it was. -/
theorem compileEquation_apply (hm : s.model = some m) :
    compileEquation equation params indices env pairing name s =
      match Equation.parts s.vars (s.scope params indices) pairing equation env with
      | .ok p => ⟨{ s with model := some (m.place ⟨m.freshName name, p.1, p.2⟩) }, [],
          .ok ⟨m.freshName name, p.1, p.2⟩⟩
      | .error e => ⟨s, [], .error e⟩ := by
  rw [compileEquation, placeEquation_fst hm]
  cases Equation.parts s.vars (s.scope params indices) pairing equation env <;> rfl

/-- An equation that compiles has two sides, and its constraint is a component of the model. -/
theorem compileEquation_eq_ok
    (h : (compileEquation equation params indices env pairing name s).result = .ok c) :
    ∃ lhs rhs m m', equation = .eq lhs rhs ∧ s.model = some m ∧
      (Equation.compile s.vars (s.scope params indices) pairing (m.freshName name) lhs rhs env).1 =
        .ok c ∧
      (compileEquation equation params indices env pairing name s).system =
        { s with model := some m' } ∧
      m'.get? c.name = some (.constraint c) := by
  cases hm : s.model with
  | none =>
    obtain ⟨e, he⟩ : ∃ e, compileEquation equation params indices env pairing name s =
        ⟨s, [], .error e⟩ := compileEquation_noModel hm
    rw [he] at h
    simp at h
  | some m =>
    rw [compileEquation_apply hm] at h ⊢
    cases hparts : Equation.parts s.vars (s.scope params indices) pairing equation env with
    | error e =>
      rw [hparts] at h
      simp at h
    | ok p =>
      rw [hparts] at h
      cases h
      obtain ⟨lhs, rhs, -, -, rfl, -⟩ := Equation.parts_eq_ok hparts
      refine ⟨lhs, rhs, m, _, rfl, rfl, ?_, rfl, Table.get?_insert_self _ _ _⟩
      rw [Equation.compile_fst, hparts]
      rfl

end EquationSystem

end Equilibrium
