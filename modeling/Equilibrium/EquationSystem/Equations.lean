/-
Compiling the equations of a system.

An equation compiles to the difference of its sides and to a constraint, which becomes a component
of the model under a free name. The pass over the records goes in their order: it skips a record
without structured payload, one that carries a constraint already and one whose equation is not to
be compiled, and it stops at the first record that fails.

Main statements:
* `Equation.compile_restores` - compiling an equation leaves the bindings as they were.
-/
import Equilibrium.EquationSystem

namespace Equilibrium

/-- The pair of a residual with the variable that a handle stands for, according to its bounds. -/
def Handle.pair (vars : List Variable) (residual : Expression) (h : Handle) :
    Except Fault Shape :=
  match h.varId?.bind fun id => (vars[id]?).map fun v => (id, v) with
  | none => .error .foreignHandle
  | some (id, v) => do
      let lower ← v.readLower
      let upper ← v.readUpper
      Shape.pair residual id lower upper

namespace Equation

/-- The two sides of an equation. -/
def sides : Term → Except Fault (Term × Term)
  | .eq lhs rhs => .ok (lhs, rhs)
  | t => .error (.notAnEquation t.kind)

/-- The constraint on the compiled sides and their difference. -/
def shape (vars : List Variable) (s : Scope) (pairing : Option Term)
    (left right residual : Expression) : Scoped Shape :=
  match pairing with
  | none => pure (Shape.equate left right residual)
  | some t => do
      let h ← Pairing.compile s t
      Scoped.lift (h.pair vars residual)

/-- Compiles an equation under a name. -/
def compile (vars : List Variable) (s : Scope) (pairing : Option Term) (name : String)
    (lhs rhs : Term) : Scoped Constraint := do
  let left ← lhs.compile s
  let right ← rhs.compile s
  let residual ← Scoped.lift (left.sub right)
  let shape ← shape vars s pairing left right residual
  return ⟨name, residual, shape⟩

theorem shape_restores (vars : List Variable) (s : Scope) (pairing : Option Term)
    (left right residual : Expression) (env : Bindings) :
    (shape vars s pairing left right residual env).2 = env := by
  cases pairing with
  | none => rfl
  | some t => exact Bindings.bind_restores (Pairing.compile_restores s t) (fun _ _ => rfl) env

/-- Compiling an equation leaves the bindings as they were, also when it fails. -/
theorem compile_restores (vars : List Variable) (s : Scope) (pairing : Option Term)
    (name : String) (lhs rhs : Term) (env : Bindings) :
    (compile vars s pairing name lhs rhs env).2 = env :=
  Bindings.bind_restores (lhs.compile_restores s)
    (fun _ => Bindings.bind_restores (rhs.compile_restores s)
      fun _ => Bindings.bind_restores (fun _ => rfl)
        fun _ => Bindings.bind_restores (shape_restores vars s pairing _ _ _)
          fun _ _ => rfl) env

end Equation

/-- An objective to be installed: its term and what the names in it refer to. -/
structure ObjectiveSpec where
  body : Term
  indexNames : Option (List Value)
  indices : List Value
  params : Source
  sense : Sense

namespace EquationSystem

/-- The scope of a term in this system. -/
def scope (s : EquationSystem) (params : Source) (indices : List String) : Scope :=
  ⟨s.registry, params, indices⟩

/-- Compiles an equation and adds its constraint to the model, under the first free name. Gives the
model with the new component, and the constraint. -/
def placeEquation (s : EquationSystem) (equation : Term) (params : Source) (indices : List String)
    (pairing : Option Term) (name : String) : Scoped (Model × Constraint) := do
  let (lhs, rhs) ← Scoped.lift (Equation.sides equation)
  let m ← Scoped.lift s.requireModel
  let c ← Equation.compile s.vars (s.scope params indices) pairing (m.freshName name) lhs rhs
  let m ← Scoped.lift (m.add c.name (.constraint c))
  return (m, c)

/-- Compiles an equation into the model of the system. A failure leaves the system as it was. -/
def compileEquation (equation : Term) (params : Source) (indices : List String) (env : Bindings)
    (pairing : Option Term) (name : String) : Action Constraint := fun s =>
  match (s.placeEquation equation params indices pairing name env).1 with
  | .ok (m, c) => ⟨{ s with model := some m }, [], .ok c⟩
  | .error e => ⟨s, [], .error e⟩

/-- The wanted component name of a record. -/
def componentName (position : Nat) (r : Record) : String :=
  r.block ++ "_" ++ r.tag ++ "_" ++ toString position

/-- The objective that a payload asks for; there may be one in all. -/
def nextObjective (known : Option ObjectiveSpec) (p : Payload) :
    Except Fault (Option ObjectiveSpec) :=
  match p.objective with
  | none => .ok known
  | some body =>
      if known.isSome then .error .multipleObjectives
      else (Sense.ofValue p.sense).map fun sense => some {
        body := body
        indexNames := p.indexNames.map (·.map .text)
        indices := p.indices.map .text
        params := p.params
        sense := sense }

/-- Compiles the equation of a record and attaches the constraint to it. A parameter source given
here takes precedence over the one of the record. -/
def compileRecord (params : Source) (position : Nat) (r : Record) (p : Payload)
    (equation : Term) : Action Unit := do
  Action.remark p.bindings.2
  let c ← compileEquation equation (params.orElse p.params) p.indices p.bindings.1 p.pairing
    (componentName position r)
  let updated ← Action.lift (r.withConstraint (some (.compiled c)))
  replaceEquation (Int.ofNat position) updated

/-- Compiles what a record asks for, if anything, and collects its objective. -/
def visitRecord (params : Source) (position : Nat) (known : Option ObjectiveSpec) (r : Record) :
    Action (Option ObjectiveSpec) :=
  match r.structured? with
  | none => pure known
  | some p => do
      -- a second objective is refused even where the equation itself is skipped
      let objective ← Action.lift (nextObjective known p)
      match p.constraint, p.equation with
      | none, some equation =>
          if equation.isCompilable then do
            compileRecord params position r p equation
            return objective
          else return objective
      | _, _ => return objective

/-- Goes through the records from a position on. -/
def visitRecords (params : Source) (position : Nat) (known : Option ObjectiveSpec) :
    List Record → Action (Option ObjectiveSpec)
  | [] => pure known
  | r :: rest => do
      let objective ← visitRecord params position known r
      visitRecords params (position + 1) objective rest

end EquationSystem

end Equilibrium
