/-
Runs: from blocks to residuals and an exported dataset.

A run builds its blocks in their order, fixes the variables it is told to, compiles the equations,
solves once, and summarizes what remains as residuals.
-/
import Equilibrium.Block.Registry
import Equilibrium.Dataset
import Equilibrium.EquationSystem.Objective
import Equilibrium.EquationSystem.Solving

namespace Equilibrium

/-- The specification of a run. -/
structure RunSpec where
  name : String
  blocks : List BlockRequest
  /-- The parameter source that the blocks share. -/
  params : Source
  metadata : Table Value

/-- How a run is carried out. -/
structure RunOptions where
  solver : Option SolverRequest := none
  heading : Dataset.Heading := {}
  tol : Float := 1e-6
  /-- Whether equations are compiled. -/
  compile : Bool := true
  /-- Whether the objective is compiled as well. -/
  withObjective : Bool := true
  /-- A parameter source that takes precedence over those of the records. -/
  params : Source := .absent
  /-- Variables to be fixed before anything is compiled. -/
  fixes : List (String × Option Number) := []

/-- What a run gives. -/
structure RunResult where
  summary : ResidualSummary
  dataset : Dataset

namespace RunSpec

/-- Reads the specification of a run on given blocks. -/
def ofForm (form : Form) (blocks : List BlockRequest) (params : Source) : Checked RunSpec :=
  let name := Form.field form "name" Form.someText "cge"
  let metadata := Form.field form "metadata" (Form.tableOf Checked.ok) Table.empty
  (name.both metadata).map fun (name, metadata) => ⟨name, blocks, params, metadata⟩

end RunSpec

namespace EquationSystem

/-- Fixes registered variables, in order; those before a failure stay fixed. -/
def fixVariables : List (String × Option Number) → Action Unit
  | [], s => ⟨s, [], .ok ()⟩
  | (name, value) :: rest, s => match s.varId? name with
    | some id => fixVariables rest (s.modifyVariable id (·.fix value))
    | none => ⟨s, [], .error (.notARegisteredVariable name)⟩

end EquationSystem

namespace Run

/-- Builds blocks, in order. -/
def buildAll (shared : Source) : List BlockRequest → Action Unit
  | [] => pure ()
  | b :: rest => do
      b.build shared
      buildAll shared rest

/-- The system from which a run starts. -/
def initial (spec : RunSpec) : EquationSystem := EquationSystem.new (some (Model.empty spec.name))

/-- Compiles the equations, if that is wanted. -/
def compileIfWanted (options : RunOptions) : Action Unit :=
  if options.compile then EquationSystem.compileEquations options.params options.withObjective
  else pure ()

/-- Summarizes the residuals of the system and exports them. -/
def conclude (options : RunOptions) : Action RunResult := do
  let s ← Action.current
  let dataset ← Action.lift (Dataset.ofSystem s options.heading options.tol)
  return ⟨s.summarizeResiduals options.tol, dataset⟩

/-- Carries out a run on the system from which it starts. -/
def steps (spec : RunSpec) (options : RunOptions) : Action RunResult := do
  buildAll spec.params spec.blocks
  EquationSystem.fixVariables options.fixes
  compileIfWanted options
  EquationSystem.solve options.solver
  conclude options

/-- Carries out a run. -/
def run (spec : RunSpec) (options : RunOptions) : Outcome RunResult :=
  steps spec options (initial spec)

end Run

end Equilibrium
