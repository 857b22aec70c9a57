/-
The objective of a system.

A model has at most one objective, under a name of its own. Installing one compiles its term, takes
away what the model held under that name and adds the new objective. A term that compiles to a plain
value other than a real number is refused only after that, which leaves an objective that was given
neither a sense nor a body. Reading such an objective fails.
-/
import Equilibrium.EquationSystem.Equations

namespace Equilibrium

namespace Objective

/-- Why an expression is refused as the body of an objective. The items of a list and the entries of
a mapping would be bodies for the indices of an objective, and this one has none. -/
def refusal? : Expression → Option Fault
  | .native (.bool _) => some .badValue
  | .native (.text _) => some .badValue
  | .native (.number (.complex _)) => some .badValue
  | .native (.list (_ :: _)) => some .unknownEntry
  | .native (.map (_ :: _)) => some .unknownEntry
  | _ => none

/-- The objective that an expression gives if it is not refused. Nothing at all, a list and a
mapping give it neither a sense nor a body. -/
def of (sense : Sense) : Expression → Objective
  | .native .none => blank
  | .native (.list _) => blank
  | .native (.map _) => blank
  | body => goal sense body

/-- The value of a body. A plain number is read back as a double. -/
def bodyValue (values : Assignment) : Expression → Option Number
  | .native (.number n) => n.toReal.toOption.map .real
  | body => body.eval values

/-- What is read off an objective: its sense, and the value of its body if there is one. -/
def read (values : Assignment) : Objective → Except Fault (Sense × Option Number)
  | blank => .error .badValue
  | goal sense body => .ok (sense, bodyValue values body)

end Objective

namespace Model

/-- The component name of the objective. -/
def objectiveName : String := "cge_objective"

/-- The installed objective, if there is one. -/
def objective? (m : Model) : Option Objective :=
  match m.get? objectiveName with
  | some (.objective o) => some o
  | _ => none

/-- Puts an objective in the place of whatever has its name. -/
def putObjective (m : Model) (o : Objective) : Model :=
  let cleared := m.remove objectiveName
  { cleared with components := cleared.components.insert objectiveName (.objective o) }

/-- Installs an expression as the objective. -/
def installObjective (m : Model) (sense : Sense) (body : Expression) : Model × Except Fault Unit :=
  match Objective.refusal? body with
  | some e => (m.putObjective .blank, .error e)
  | none => (m.putObjective (.of sense body), .ok ())

theorem putObjective_get? (m : Model) (o : Objective) :
    (m.putObjective o).get? objectiveName = some (.objective o) := by
  simp [putObjective, get?]

end Model

namespace EquationSystem

/-- The sense in which an objective is installed: the one that is asked for, or its own. -/
def chooseSense (own : Sense) : Option Value → Except Fault Sense
  | some v => Sense.ofValue v
  | none => .ok own

/-- Installs an objective. A parameter source and a sense given here take precedence over those of
the objective. -/
def installObjective (spec : ObjectiveSpec) (params : Source) (asked : Option Value) :
    Action Unit := do
  let s ← Action.current
  let m ← Action.lift s.requireModel
  let sense ← Action.lift (chooseSense spec.sense asked)
  let (env, notices) := Bindings.ofIndices spec.indexNames spec.indices
  Action.remark notices
  let scope := s.scope (params.orElse spec.params) (spec.indices.map Value.display)
  let body ← Action.lift (spec.body.compile scope env).1
  let (installed, result) := m.installObjective sense body
  Action.become { s with model := some installed }
  Action.lift result

/-- Compiles the equations of all records, and then, if that is wanted, installs the objective that
one of them asks for. -/
def compileEquations (params : Source) (withObjective : Bool) : Action Unit := do
  let s ← Action.current
  let _ ← Action.lift s.requireModel
  let objective ← visitRecords params 0 none s.equations
  match objective with
  | some spec => if withObjective then installObjective spec params none else return ()
  | none => return ()

/-- The installed objective, if there is one. -/
def objective? (s : EquationSystem) : Option Objective := s.model.bind Model.objective?

/-- What is read off the installed objective, if there is one. -/
def readObjective (s : EquationSystem) : Except Fault (Option (Sense × Option Number)) :=
  match s.objective? with
  | some o => (o.read s.assignment).map some
  | none => .ok none

end EquationSystem

end Equilibrium
