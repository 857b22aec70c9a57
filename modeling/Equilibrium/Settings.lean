/-
Settings: defaults for runs, summaries and validations.

Settings are read from a form; every field has a default, and the flaws of all fields are reported
together, in the order of the fields. A settings file holds such a form as its top-level mapping,
where the solver may be given by its name alone.
-/
import Equilibrium.Solver
import Equilibrium.Vocabulary
import Equilibrium.Yaml

namespace Equilibrium

/-- Settings. -/
structure Settings where
  /-- The residual tolerance. -/
  tol : Float := 1e-6
  datasetId : String := "cgeruntime"
  level : Level := .basic
  /-- How many of the worst residuals a full validation lists. -/
  topResiduals : Int := 5
  /-- The size above which a variable counts as large. -/
  scalingMax : Float := 1e6
  /-- The size below which a variable counts as very small. -/
  scalingMin : Float := 1e-8
  optimizer : Option SolverConfig := none

/-- A settings file. -/
inductive SettingsFile
  | missing
  /-- A file that holds a value. -/
  | holding (value : Value)
  | text (text : String)

namespace Settings

/-- Reads the name of a validation level. -/
def readLevel (v : Value) : Checked Level :=
  match Level.ofValue v with
  | .ok l => .ok l
  | .error _ => .flaw .unknown

/-- Reads settings. -/
def ofForm (form : Form) : Checked Settings :=
  let tol := Form.field form "tol" (Form.realAbove 0.0) 1e-6
  let datasetId := Form.field form "dataset_id" Form.someText "cgeruntime"
  let level := Form.field form "validation_level" readLevel .basic
  let topResiduals := Form.field form "top_residuals" (Form.wholeFrom 0) 5
  let scalingMax := Form.field form "scaling_max" (Form.realAbove 0.0) 1e6
  let scalingMin := Form.field form "scaling_min" (Form.realFrom 0.0) 1e-8
  let optimizer := Form.field form "optimizer" (Form.optional SolverConfig.ofValue) none
  (tol.both (datasetId.both (level.both (topResiduals.both (scalingMax.both
    (scalingMin.both optimizer)))))).map
      fun (tol, datasetId, level, topResiduals, scalingMax, scalingMin, optimizer) =>
        ⟨tol, datasetId, level, topResiduals, scalingMax, scalingMin, optimizer⟩

/-- The form with the solver given in full. -/
def expandSolver (form : Form) : Except Fault Form :=
  match form.get? "optimizer" with
  | some (.text name) =>
      .ok (form.insert "optimizer" (.ofTable (Table.empty.insert "solver" (.text name))))
  | some .none => .ok form
  | some (.map _) => .ok form
  | none => .ok form
  | some _ => .error .settingsOptimizer

/-- Reads the settings that a file holds. -/
def ofPayload (path : String) : Value → Except Fault Settings
  | .none => .ok {}
  | .map entries => do
      let form ← expandSolver (Form.ofEntries entries)
      match ofForm form with
      | .ok settings => return settings
      | .error flaws => throw (.settingsInvalid path flaws)
  | _ => .error .settingsNotMapping

/-- Loads settings from a file. -/
def load (path : String) : SettingsFile → Except Fault Settings
  | .missing => .error (.settingsNotFound path)
  | .holding v => ofPayload path v
  | .text s => match Yaml.read? s with
    | some v => ofPayload path v
    | none => .error .malformedSettings

end Settings

end Equilibrium
