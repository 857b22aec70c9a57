/-
Solvers and their configuration.

A configuration names a solver and its options, and which solvers can be had by name depends on the
library that is asked. A solver object, such as one that assigns given values to variables, can be
handed in instead.
-/
import Equilibrium.Expression.Evaluation
import Equilibrium.Form
import Equilibrium.Model

namespace Equilibrium

/-- The selection of a solver and its options. -/
structure SolverConfig where
  solver : String := "ipopt"
  options : Table Value := Table.empty
  /-- Whether the solver's own output is shown. -/
  tee : Bool := false

namespace SolverConfig

/-- Reads a configuration. -/
def ofForm (form : Form) : Checked SolverConfig :=
  let solver := Form.field form "solver" Form.someText "ipopt"
  let options := Form.field form "options" (Form.tableOf Checked.ok) Table.empty
  let tee := Form.field form "tee" Form.truth false
  (solver.both (options.both tee)).map fun (s, o, t) => ⟨s, o, t⟩

/-- Reads a configuration given as a mapping. -/
def ofValue : Value → Checked SolverConfig
  | .map entries => ofForm (Form.ofEntries entries)
  | _ => .flaw .notRecord

/-- What a solver is told when it solves. -/
def solveOptions (c : SolverConfig) : Table Value := Table.empty.insert "tee" (.bool c.tee)

end SolverConfig

/-- A solver object. Asked to solve a model, at the current values of its variables and with what it
is told, it assigns values to components by name, and then it returns something or fails. -/
structure SolverObject where
  attempt : Model → Assignment → Table Value → List (String × Option Number) × Except Fault Value

/-- A solver that can be installed. -/
inductive Solver
  | object (object : SolverObject)
  /-- The solver that comes along, with its options in the order of the configuration. -/
  | program (name : String) (options : Table Value)

/-- The object that solves for a solver. The one that comes along does not solve anything. -/
def Solver.solving : Solver → SolverObject
  | object o => o
  | program _ _ => ⟨fun _ _ _ => ([], .error .solverFailure)⟩

/-- The solvers that are at hand by name. Each is made from its options, which may fail. -/
def SolverLibrary := String → Option (Table Value → Except Fault Solver)

/-- The library with the one solver that comes along. -/
def SolverLibrary.standard : SolverLibrary := fun name =>
  if name == "mpec_nlp" then some fun options => .ok (.program name options) else none

/-- What a solver returns that assigned its values. -/
def solved : Value := .ofTable (Table.empty.insert "status" (.text "ok"))

/-- The solver object that assigns given values to components by name, or fails before it assigns
anything. -/
def Solver.assigning (writes : List (String × Option Number)) (fails : Bool) : Solver :=
  .object ⟨fun _ _ _ => if fails then ([], .error .solverFailure) else (writes, .ok solved)⟩

/-- The solver that a configuration selects. -/
def SolverConfig.create (c : SolverConfig) (library : SolverLibrary := .standard) :
    Except Fault Solver :=
  match library c.solver with
  | none => .error (.unavailableSolver c.solver)
  | some make => make c.options

/-- What is asked to be installed as the solver. -/
inductive SolverRequest
  | named (name : String)
  | configured (config : SolverConfig)
  | object (solver : Solver)
  | foreign (value : Value)

namespace SolverRequest

/-- A request given as a plain value: a text names a solver. -/
def ofValue : Value → SolverRequest
  | .text s => named s
  | v => foreign v

/-- The solver that a request selects and what it is told when it solves. -/
def resolve (request : SolverRequest) (library : SolverLibrary := .standard) :
    Except Fault (Solver × Table Value) :=
  match request with
  | named name => do
      let c ← (SolverConfig.ofForm (Table.empty.insert "solver" (.text name))).toExcept
      let s ← c.create library
      return (s, c.solveOptions)
  | configured c => do
      let s ← c.create library
      return (s, c.solveOptions)
  | object s => .ok (s, Table.empty)
  | foreign v => .error (.unsupportedOptimizer v.quoted)

end SolverRequest

end Equilibrium
