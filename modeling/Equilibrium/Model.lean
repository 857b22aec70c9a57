/-
Models: named components in the order of their declaration.

A component is a variable, a compiled constraint or an objective. Adding a component under a name
that is taken is refused, so names identify components. A free name is found by appending `_2`,
`_3`, … to the wanted one.
-/
import Equilibrium.Compilation
import Equilibrium.Constraint
import Equilibrium.Vocabulary

namespace Equilibrium

/-- The objective of a model. It may be there without having been given a sense and a body. -/
inductive Objective
  | blank
  | goal (sense : Sense) (body : Expression)

/-- A component of a model. -/
inductive Component
  | ofVar (id : VarId)
  | constraint (constraint : Constraint)
  | objective (objective : Objective)

/-- The kind of a component. -/
def Component.kind : Component → String
  | ofVar _ => "Var"
  | constraint c => if c.shape.isEquality then "Constraint" else "Complementarity"
  | objective _ => "Objective"

/-- A model: its name and its components. -/
structure Model where
  name : String
  components : Table Component

namespace Model

/-- A model without components. -/
def empty (name : String) : Model := ⟨name, Table.empty⟩

/-- Whether a component has this name. -/
def contains (m : Model) (name : String) : Bool := m.components.contains name

/-- The component with this name. -/
def get? (m : Model) (name : String) : Option Component := m.components.get? name

/-- Adds a component under a free name. -/
def add (m : Model) (name : String) (c : Component) : Except Fault Model :=
  if m.contains name then .error (.duplicateComponent name)
  else .ok { m with components := m.components.insert name c }

/-- Takes the component with this name away, if there is one. -/
def remove (m : Model) (name : String) : Model :=
  { m with components := m.components.erase name }

/-- The `k`-th candidate for a component name: the wanted name itself, then numbered from two. -/
def candidate (base : String) : Nat → String
  | 0 => base
  | k + 1 => base ++ "_" ++ toString (k + 2)

/-- Searches the candidates from the `k`-th on, `fuel` of them at most. -/
def searchName (m : Model) (base : String) : Nat → Nat → String
  | 0, k => candidate base k
  | fuel + 1, k =>
      if m.contains (candidate base k) then searchName m base fuel (k + 1) else candidate base k

/-- The first candidate that is free; among one more candidates than there are components one is. -/
def freshName (m : Model) (base : String) : String :=
  searchName m base m.components.size 0

end Model

end Equilibrium
