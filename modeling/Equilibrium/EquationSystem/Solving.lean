/-
Solving a system and recording its residuals.

A solve runs the installed solver once and then measures the residual of every record that carries a
constraint. A residual without a value is cleared, so none survives from an earlier solve. Measuring
stops at the first record whose residual cannot be read as a real number; the records before it are
refreshed already.

Main statements:
* `EquationSystem.updateResiduals_frame` - measuring changes nothing but the records.
-/
import Equilibrium.EquationSystem

namespace Equilibrium

/-- What measuring the residual of a record gives. -/
inductive Reading
  /-- The record carries no constraint. -/
  | exempt
  | unavailable
  | measured (residual : Float)

namespace Record

/-- Measures the residual of the constraint that a record carries. -/
def reading (values : Assignment) (r : Record) : Except Fault Reading :=
  match r.structured?.bind Payload.constraint with
  | none => .ok .exempt
  | some (.foreign _) => .error .foreignHandle
  | some (.compiled c) => do
      match ← c.residualValue values with
      | none => return .unavailable
      | some x => return .measured x

/-- The record with a residual put in or taken out, if it has a structured payload. -/
def setResidual (r : Record) (residual : Option Float) : Record :=
  match r.content with
  | .structured p => { r with content := .structured { p with residual := residual } }
  | .foreign _ => r

/-- The record after a measurement. -/
def refreshed (r : Record) : Reading → Record
  | .exempt => r
  | .unavailable => r.setResidual none
  | .measured x => r.setResidual (some x)

/-- The remarks on a measurement. -/
def remarks (r : Record) : Reading → List Notice
  | .unavailable => [.residualUnavailable r.label]
  | _ => []

end Record

/-- Whether a measurement recorded a residual. -/
def Reading.isMeasured : Reading → Bool
  | .measured _ => true
  | _ => false

namespace EquationSystem

/-- Installs a solver, together with what it is told when it solves. -/
def setSolver (request : SolverRequest) (library : SolverLibrary := .standard) : Action Unit :=
  fun s =>
    match request.resolve library with
    | .ok (solver, options) =>
        ⟨{ s with solver := some solver, solveOptions := options }, [], .ok ()⟩
    | .error e => ⟨s, [], .error e⟩

/-- Writes a value to the variable that is the component with this name. -/
def writeComponent (m : Model) (s : EquationSystem) (name : String) (value : Option Number) :
    Except Fault EquationSystem :=
  match m.get? name with
  | some (.ofVar id) => .ok (s.assign id value)
  | _ => .error .foreignHandle

/-- Writes values to components, in order; those before a failure stay written. -/
def writeComponents (m : Model) : List (String × Option Number) → Action Unit
  | [], s => ⟨s, [], .ok ()⟩
  | (name, value) :: rest, s => match writeComponent m s name value with
    | .ok s' => writeComponents m rest s'
    | .error e => ⟨s, [], .error e⟩

/-- Runs a solver on a model. What it assigned before it fails stays assigned. -/
def runSolver (m : Model) (solver : Solver) : Action Value := do
  let s ← Action.current
  let attempt := solver.solving.attempt m s.assignment s.solveOptions
  writeComponents m attempt.1
  Action.lift attempt.2

/-- Measures the residuals of a list of records and counts those that have one. -/
def refresh (values : Assignment) : List Record → List Record × List Notice × Except Fault Nat
  | [] => ([], [], .ok 0)
  | r :: rest => match r.reading values with
    | .error e => (r :: rest, [], .error e)
    | .ok reading =>
        let (records, notices, count) := refresh values rest
        (r.refreshed reading :: records, r.remarks reading ++ notices,
          count.map fun n => if reading.isMeasured then n + 1 else n)

/-- Measures the residual of every record that carries a constraint, and counts those that have
one. -/
def updateResiduals : Action Nat := fun s =>
  let (records, notices, count) := refresh s.assignment s.equations
  ⟨{ s with equations := records }, notices, count⟩

/-- Keeps what a solver returned. -/
def keepResults (results : Value) : Action Unit := fun s =>
  ⟨{ s with results := some results }, [], .ok ()⟩

/-- Solves the system with the installed solver, after installing the one that is asked for, and
records the residuals. -/
def solve (request : Option SolverRequest) (library : SolverLibrary := .standard) :
    Action Unit := do
  let s ← Action.current
  let m ← Action.lift s.requireModel
  match request with
  | some r => setSolver r library
  | none => pure ()
  let s ← Action.current
  match s.solver with
  | none => Action.fail .noOptimizer
  | some solver =>
      let results ← runSolver m solver
      keepResults results
      let _ ← updateResiduals
      return ()

/-- Measuring changes nothing but the records. -/
theorem updateResiduals_frame (s : EquationSystem) :
    (updateResiduals s).system = { s with equations := (refresh s.assignment s.equations).1 } :=
  rfl

end EquationSystem

end Equilibrium
