/-
The dataset that is exported after a solve.

A dataset holds one component for each block, one constraint for each equation instance with a
residual, and one solution for each constraint: its slack is the absolute residual, and it is
binding if the slack is within the tolerance.

Main statements:
* `Dataset.solutions_ids` - the solutions name the constraints, in the same order.
-/
import Equilibrium.Residual
import Equilibrium.Document

namespace Equilibrium

namespace Dataset

/-- A component of a dataset: a block. -/
structure Component where
  id : String
  kind : String
  name : String

/-- A constraint of a dataset: an equation instance. -/
structure Constraint where
  id : String
  kind : String
  sense : String
  components : List String

/-- The solution of a constraint. -/
structure Solution where
  constraint : String
  dual : Float
  slack : Float
  isBinding : Bool

end Dataset

/-- An exported dataset. -/
structure Dataset where
  id : String
  description : Option String
  components : List Dataset.Component
  constraints : List Dataset.Constraint
  solutions : List Dataset.Solution

namespace Dataset

/-- What a dataset is to be called. -/
structure Heading where
  id : Value := .text "cgeruntime"
  description : Value := .none

/-- The id of an equation instance. -/
def constraintId (block tag : String) (indices : List String) : String :=
  block ++ ":" ++ tag ++ ":" ++ Text.join "," indices

/-- The id of the equation instance of an entry. -/
def idOf (e : ResidualEntry) : String := constraintId e.block e.tag e.indices

/-- The blocks of some entries, each once, in the order in which they first appear. -/
def blocksOf (entries : List ResidualEntry) : List String :=
  (Table.ofList (entries.map fun e => (e.block, ()))).keys

/-- The component of a block. -/
def componentOf (block : String) : Component := ⟨block, "other", block⟩

/-- The constraint of an entry. -/
def constraintOf (e : ResidualEntry) : Constraint := ⟨idOf e, "other", "eq", [e.block]⟩

/-- The solution of an entry. -/
def solutionOf (tol : Float) (e : ResidualEntry) : Solution :=
  ⟨idOf e, 0.0, e.size, e.size <= tol⟩

/-- The dataset of some entries. -/
def ofEntries (id : String) (description : Option String) (tol : Float)
    (entries : List ResidualEntry) : Dataset :=
  { id := id
    description := description
    components := (blocksOf entries).map componentOf
    constraints := entries.map constraintOf
    solutions := entries.map (solutionOf tol) }

/-- Exports the residuals of a system. The description is checked before the id. -/
def ofSystem (s : EquationSystem) (heading : Heading) (tol : Float) : Except Fault Dataset := do
  let description ←
    (Checked.within (.field "description") (Form.optional Form.text heading.description)).toExcept
  let id ← (Checked.within (.field "dataset_id") (Form.text heading.id)).toExcept
  return ofEntries id description tol s.residuals

/-- The dataset as a document. -/
def toDocument (d : Dataset) : Document :=
  .object [("dataset_id", .text d.id),
    ("metadata", .object [("description", Document.optional .text d.description)]),
    ("components", .list (d.components.map fun c =>
      .object [("component_id", .text c.id), ("component_type", .text c.kind),
        ("name", .text c.name)])),
    ("constraints", .list (d.constraints.map fun c =>
      .object [("constraint_id", .text c.id), ("kind", .text c.kind), ("sense", .text c.sense),
        ("component_ids", .texts c.components)])),
    ("constraint_solutions", .list (d.solutions.map fun x =>
      .object [("constraint_id", .text x.constraint), ("dual", .real x.dual),
        ("slack", .real x.slack), ("is_binding", .bool x.isBinding)])),
    ("variables", .null)]

theorem solutions_ids (id : String) (description : Option String) (tol : Float)
    (entries : List ResidualEntry) :
    (ofEntries id description tol entries).solutions.map Solution.constraint =
      (ofEntries id description tol entries).constraints.map Constraint.id := by
  simp [ofEntries, solutionOf, constraintOf, Function.comp_def]

end Dataset

end Equilibrium
