/-
Validating a system.

A validation looks at the structure of a system, at its residuals, at its complementary variables
and, at the full level, at the sizes of its variables. What it finds it reports as warnings and
notes.
-/
import Equilibrium.Residual
import Equilibrium.Report
import Equilibrium.Settings
import Equilibrium.Snapshot

namespace Equilibrium.Validation

/-- Tags of equations that close or bound a model; they need no complementary variable. -/
def exemptTags : List String := ["objective", "numeraire", "start", "lower", "upper", "fixed"]

/-- The text of a double. -/
def figure (x : Float) : String := Decimal.figures.text x

/-! ### Structure -/

/-- The warnings about the structure of a system. -/
def structureWarnings (s : EquationSystem) : List String :=
  (if s.equations.isEmpty then ["No equations registered in context"] else []) ++
    (if s.registry.toList.isEmpty then ["No variables registered in context"] else [])

/-- The findings about the structure of a system. -/
def structureFindings (s : EquationSystem) (data : Value) : Findings :=
  { warnings := structureWarnings s
    notes := if data.isNone then [] else ["data provided but not used by validate_model yet"] }

/-! ### Residuals -/

/-- The note on one of the worst residuals. -/
def rankNote (rank : Nat) (row : ResidualRow) : String :=
  "worst " ++ toString rank ++ ": " ++ row.entry.label ++ " residual=" ++ figure row.entry.residual

/-- The notes on the worst residuals, ranked from one. -/
def rankNotes (s : EquationSystem) (n : Int) : List String :=
  (s.worstResiduals n).mapIdx fun k row => rankNote (k + 1) row

/-- The note on the residuals as a whole. -/
def summaryNote (summary : ResidualSummary) : String :=
  "max_abs=" ++ figure summary.maxAbs ++ ", above_tol=" ++ toString summary.aboveTol

/-- The warnings about residuals above the tolerance. -/
def toleranceWarnings (summary : ResidualSummary) : List String :=
  if summary.aboveTol > 0 then ["Residuals above tolerance: " ++ toString summary.aboveTol] else []

/-- The findings about the residuals of a system. -/
def residualFindings (s : EquationSystem) (level : Level) (tol : Float) (settings : Settings) :
    Findings :=
  if s.residuals.isEmpty then
    { warnings :=
        ["No residuals recorded; call compile_equations and solve before validation"] }
  else
    let summary := s.summarizeResiduals tol
    { warnings := toleranceWarnings summary
      notes := summaryNote summary ::
        (if level = .full then rankNotes s settings.topResiduals else []) }

/-! ### Complementarity -/

/-- The records with a structured payload that may need a complementary variable. -/
def candidates (s : EquationSystem) : List (Record × Payload) :=
  s.equations.filterMap fun r =>
    if exemptTags.contains r.tag then none else r.structured?.map fun p => (r, p)

/-- Whether an equation that is to be compiled lacks a complementary variable. -/
def lacksPairing (p : Payload) : Bool := Term.compilable? p.equation && p.pairing.isNone

/-- The findings about complementary variables. -/
def pairingFindings (s : EquationSystem) : Findings :=
  let found := candidates s
  if found.any fun c => c.2.pairing.isSome then
    { warnings := (found.filter fun c => lacksPairing c.2).map fun c =>
        "Missing mcp_var for " ++ c.1.label }
  else { notes := ["No MCP equations detected"] }

/-! ### Scaling -/

/-- The greatest and the least of some sizes. -/
def extremes : List Float → Option (Float × Float)
  | [] => none
  | x :: rest => some (rest.foldl (fun a b => if a < b then b else a) x,
      rest.foldl (fun a b => if b < a then b else a) x)

/-- The findings about the sizes of some values. -/
def scalingFindings (settings : Settings) (values : List Float) : Findings :=
  match extremes (values.map Float.abs) with
  | none => {}
  | some (greatest, least) =>
      { warnings :=
          (if greatest > settings.scalingMax then
            ["Large variable magnitude detected: max=" ++ figure greatest] else []) ++
          (if least < settings.scalingMin then
            ["Very small variable magnitude detected: min=" ++ figure least] else []) }

/-- The findings about the sizes of the variables, at the full level. -/
def variableFindings (s : EquationSystem) (level : Level) (settings : Settings) :
    Except Fault Findings :=
  match level with
  | .basic => .ok {}
  | .full => s.snapshot.map fun values => scalingFindings settings values.values

/-! ### The whole -/

/-- The report with these findings. -/
def report (structural residuals pairing scaling : Findings) : Report :=
  let r : Report := {}
  let r := ((r.put .structural structural).put .residuals residuals).put .mcp pairing
  (r.put .scaling scaling).finalize

/-- Validates a system. -/
def validate (s : EquationSystem) (data level : Value) (tol : Float) (settings : Settings) :
    Except Fault Report := do
  let level ← Level.ofValue level
  let scaling ← variableFindings s level settings
  return report (structureFindings s data) (residualFindings s level tol settings)
    (pairingFindings s) scaling

end Equilibrium.Validation
