/-
Why an operation is refused.

Faults are causes; `Fault.message` words those that have a fixed text. Four families are told apart:
configuration (the caller supplied something incomplete or unknown), references (a name does not
resolve), structure (the equation system breaks a rule of the compiler) and arithmetic (the values
themselves cannot be combined). The remaining faults come from the places where values enter:
forms, files, solvers and positions in lists.
-/
import Equilibrium.Text.Quoted

namespace Equilibrium

/-- Why one entry of a form is refused. -/
inductive Invalidity
  | missing
  | notText
  | tooShort
  | notNumber
  | badNumeral
  | notWhole
  | badWhole
  /-- A number with a fraction where a whole number is wanted. -/
  | fractional
  | notFinite
  | notTruth
  | badTruth
  | notMapping
  | notList
  | notTuple
  | notRecord
  | notMember
  | badKey
  | notGreater
  | notAtLeast
  /-- The entry is of the right kind, but no known name. -/
  | unknown
  deriving Repr, DecidableEq

/-- One step on the way to an entry of a form. -/
inductive Step
  | field (name : String)
  | position (n : Int)
  deriving Repr, DecidableEq

/-- A refused entry: the way to it and the reason. -/
structure Flaw where
  path : List Step
  cause : Invalidity
  deriving Repr, DecidableEq

/-- Puts one more step in front of the way. -/
def Flaw.within (step : Step) (f : Flaw) : Flaw := ⟨step :: f.path, f.cause⟩

/-- The vocabularies whose members are looked up by a labelled name. -/
inductive Lexicon
  | componentType
  | constraintKind
  | constraintSense
  deriving Repr, DecidableEq

/-- The words for the members of a vocabulary. -/
def Lexicon.label : Lexicon → String
  | .componentType => "component type"
  | .constraintKind => "constraint kind"
  | .constraintSense => "constraint sense"

/-- What can be attached to an equation record. -/
inductive Attachable
  | constraint
  | residual
  deriving Repr, DecidableEq

/-- The words for what is attached. -/
def Attachable.label : Attachable → String
  | .constraint => "a constraint"
  | .residual => "a residual"

/-- Why an operation is refused. -/
inductive Fault
  /-- No model is attached. -/
  | noModel
  /-- A parameter source is neither a mapping nor an object that answers for its parameters. -/
  | unsupportedSource (kind : String)
  | unknownSense (text : String)
  | unknownLevel (text : String)
  | unknownCategory (text : String)
  | unknownMember (lexicon : Lexicon) (text : String)
  | unsupportedOptimizer (text : String)
  | unavailableSolver (name : String)
  | noOptimizer
  | unknownBlock (name : String)
  | notABlock (text : String)
  | notARegisteredVariable (name : String)
  | unstructuredPayload (what : Attachable) (label : String)
  | settingsNotFound (path : String)
  | settingsNotMapping
  | settingsOptimizer
  | settingsInvalid (path : String) (flaws : List Flaw)
  | unboundIndex (name : String)
  | missingVariable (name : String)
  | missingParameter (name : String) (indices : List String)
  | noParameters (name : String)
  | multipleObjectives
  | emptyDomain (operator index : String)
  | emptyProduct
  | notAnEquation (kind : String)
  | unsupportedTerm (kind : String)
  | unsupportedPairing (text : String)
  | documentationOnly (text : String)
  | divisionByZero
  | overflow
  /-- An operation does not apply to values of these kinds. -/
  | illTyped
  /-- A value of the right kind that the operation does not take. -/
  | badValue
  /-- A handle that is no variable, or no compiled constraint, was used as one. -/
  | foreignHandle
  | unknownEntry
  | outOfRange
  | duplicateComponent (name : String)
  | solverFailure
  | alreadyRegistered (name : String)
  | notRegistered (name : String)
  /-- The entries of a form that are refused, in the order of its fields. -/
  | invalid (flaws : List Flaw)
  | malformedSettings
  deriving Repr, DecidableEq

namespace Fault

/-- The label of a parameter at its indices. -/
def parameterLabel (name : String) (indices : List String) : String :=
  if indices.isEmpty then name else name ++ "[" ++ Text.join ", " indices ++ "]"

/-- The words for a fault, where it has a fixed text. -/
def message : Fault → Option String
  | noModel => some "Context.model is not set; attach a Pyomo ConcreteModel"
  | unsupportedSource kind => some ("Unsupported parameter source type: " ++ kind)
  | unknownSense text => some ("Unsupported objective sense: " ++ text)
  | unknownLevel text => some ("Unsupported validation level: " ++ text)
  | unknownCategory text => some ("Unknown report category: " ++ text)
  | unknownMember lexicon text => some ("Unknown " ++ lexicon.label ++ ": " ++ text)
  | unsupportedOptimizer text => some ("Unsupported optimizer: " ++ text)
  | unavailableSolver name => some ("Solver '" ++ name ++ "' is not available")
  | noOptimizer => some "No optimizer configured; pass one to solve() or call set_optimizer()"
  | unknownBlock name => some ("Block '" ++ name ++ "' not found in registry")
  | notABlock text => some ("Block " ++ text ++ " does not define build(context, spec)")
  | notARegisteredVariable name =>
      some ("mcp_fix expects a variable registered in context: " ++ name)
  | unstructuredPayload what label =>
      some ("Cannot attach " ++ what.label ++ " to unstructured payload " ++ label)
  | settingsNotFound path => some ("Settings file not found: " ++ path)
  | settingsNotMapping => some "Settings YAML must define a top-level mapping"
  | settingsOptimizer => some "optimizer must be a mapping or a solver name"
  | settingsInvalid path _ => some ("Invalid settings in " ++ path)
  | unboundIndex name => some ("Unbound index: " ++ name)
  | missingVariable name => some ("Missing variable: " ++ name)
  | missingParameter name indices =>
      some ("Missing parameter: " ++ parameterLabel name indices)
  | noParameters name => some ("No params provided for parameter " ++ name)
  | multipleObjectives =>
      some "Multiple objectives registered; only one objective is supported."
  | emptyDomain operator index =>
      some (operator ++ " domain is empty for index " ++ index)
  | emptyProduct => some "EMul requires at least one factor"
  | notAnEquation kind =>
      some ("Unsupported equation expression: expected EEq, got " ++ kind)
  | unsupportedTerm kind => some ("Unsupported expression type: " ++ kind)
  | unsupportedPairing text => some ("Unsupported MCP variable expression: " ++ text)
  | documentationOnly text => some ("Cannot compile ERaw expression: " ++ text)
  | alreadyRegistered name => some ("Block '" ++ name ++ "' is already registered")
  | notRegistered name => some ("Block '" ++ name ++ "' not found in registry")
  | _ => none

end Fault

end Equilibrium
