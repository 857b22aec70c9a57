/-
Blocks: the parts of which an equation system is assembled.

A block is declared by the variables it adds, one for each of their instances, and the equations it
registers, one record for each of theirs. An instance is a list of index elements; where a text
stands in place of a list, its characters are the elements.
-/
import Equilibrium.EquationSystem

namespace Equilibrium

/-- The specification of a variable. -/
structure VariableSpec where
  name : String
  instances : List (List String)
  lower : Option Float
  upper : Option Float
  start : Option Float
  fixed : Option Float

/-- The specification of an equation or an objective. -/
structure EquationSpec where
  tag : String
  equation : Option Term
  objective : Option Term
  sense : Option String
  indexNames : Option (List String)
  instances : List (List String)
  /-- The complementary variable. -/
  pairing : Option Term
  params : Source

/-- The entries from which the specification of an equation is made. -/
structure EquationForm where
  equation : Option Term
  objective : Option Term
  pairing : Option Term
  params : Source
  rest : Form

/-- The entries of a form, each taken as a plain value. -/
def EquationForm.ofForm (form : Form) : EquationForm :=
  let term (name : String) : Option Term := (form.get? name).bind fun v => (Term.plain v).present?
  { equation := term "expr"
    objective := term "objective_expr"
    pairing := term "mcp_var"
    params := Source.ofValue ((form.get? "params").getD .none)
    rest := form }

/-- A declared block. -/
structure Block where
  name : String
  description : String
  vars : List VariableSpec
  equations : List EquationSpec

/-- Reads instances: the parts of a value, and the parts of each of them as elements. -/
def readInstances (v : Value) : Except Fault (List (List String)) :=
  match v.parts? with
  | some items => items.mapM Form.names
  | none => .error .illTyped

/-- Reads the instances of a form; without any there is the one without elements. -/
def instancesOf (form : Form) : Except Fault (List (List String)) :=
  match form.get? "instances" with
  | some v => readInstances v
  | none => .ok [[]]

namespace VariableSpec

/-- Reads the specification of a variable. Instances without parts are ill-typed, which comes before
any flaw. -/
def check (form : Form) : Except Fault (Checked VariableSpec) := do
  let instances ← instancesOf form
  let number (name : String) : Checked (Option Float) :=
    Form.field form name (Form.optional Form.real) none
  let checked := (Form.required form "name" Form.someText).both
    ((number "lower").both ((number "upper").both ((number "start").both (number "fixed"))))
  return checked.map fun (name, lower, upper, start, fixed) =>
    ⟨name, instances, lower, upper, start, fixed⟩

/-- Reads the specification of a variable, or fails with its flaws. -/
def ofForm (form : Form) : Except Fault VariableSpec := do (← check form).toExcept

/-- The names of the variables, one for each instance. -/
def names (v : VariableSpec) : List String := v.instances.map (qualifiedName v.name)

end VariableSpec

namespace EquationSpec

/-- Reads the specification of an equation. -/
def check (form : EquationForm) : Except Fault (Checked EquationSpec) := do
  let instances ← instancesOf form.rest
  let checked := (Form.required form.rest "tag" Form.someText).both
    ((Form.field form.rest "objective_sense" (Form.optional Form.text) none).both
      (Form.field form.rest "index_names" (Form.optional Form.texts) none))
  return checked.map fun (tag, sense, indexNames) => EquationSpec.mk tag form.equation
    form.objective sense indexNames instances form.pairing form.params

/-- Reads the specification of an equation, or fails with its flaws. -/
def ofForm (form : EquationForm) : Except Fault EquationSpec := do (← check form).toExcept

/-- The payload of one instance. The block's parameter source stands in where the specification has
none, and a sense is kept only with an objective. -/
def payload (e : EquationSpec) (shared : Source) (indices : List String) : Payload :=
  { equation := e.equation
    objective := e.objective
    sense := match e.objective, e.sense with
      | some _, some sense => .text sense
      | _, _ => .none
    indexNames := e.indexNames
    indices := indices
    params := e.params.orElse shared
    pairing := e.pairing
    constraint := none
    residual := none
    extra := Table.empty }

end EquationSpec

namespace Block

/-- Reads the name and the description of a block; the name may have a default. -/
def readHeading (form : Form) (defaultName : Option String) : Checked (String × String) :=
  let name := match defaultName with
    | some d => Form.field form "name" Form.someText d
    | none => Form.required form "name" Form.someText
  name.both (Form.field form "description" Form.text "")

/-- Reads a list of specifications, each at its position. -/
def readSpecs {α : Type} (check : Form → Except Fault (Checked α)) :
    Value → Except Fault (Checked (List α))
  | .list items => do
      let checked ← items.mapM fun v => match v with
        | .map entries => check (Form.ofEntries entries)
        | _ => .ok (.flaw .notRecord)
      return Checked.all (checked.mapIdx fun n c => Checked.within (.position (Int.ofNat n)) c)
  | _ => .ok (.flaw .notList)

/-- Reads the specifications in a field, none if the form has no such entry. -/
def specsField {α : Type} (form : Form) (name : String)
    (check : Form → Except Fault (Checked α)) : Except Fault (Checked (List α)) :=
  match form.get? name with
  | some v => (readSpecs check v).map (Checked.within (.field name))
  | none => .ok (.ok [])

/-- Reads a block together with its specifications. -/
def ofForm (form : Form) : Except Fault Block := do
  let vars ← specsField form "variables" VariableSpec.check
  let equations ← specsField form "equations" fun f => EquationSpec.check (.ofForm f)
  (((readHeading form none).both (vars.both equations)).map fun (heading, specs) =>
    Block.mk heading.1 heading.2 specs.1 specs.2).toExcept

/-- Declares a block with some specifications. -/
def declare (form : Form) (vars : List VariableSpec) (equations : List EquationSpec) :
    Except Fault Block := do
  let (name, description) ← (readHeading form none).toExcept
  return ⟨name, description, vars, equations⟩

/-- Adds the variables of a specification. -/
def addVariables (v : VariableSpec) : List String → Action Unit
  | [] => pure ()
  | name :: rest => do
      let _ ← EquationSystem.addVariable name (v.lower.map .real) (v.upper.map .real)
        (v.start.map .real) (v.fixed.map .real)
      addVariables v rest

/-- Adds the variables of all specifications. -/
def addAll : List VariableSpec → Action Unit
  | [] => pure ()
  | v :: rest => do
      addVariables v v.names
      addAll rest

/-- The records that a block registers. -/
def records (b : Block) (shared : Source) : List Record :=
  b.equations.flatMap fun e =>
    e.instances.map fun i => ⟨e.tag, b.name, .structured (e.payload shared i)⟩

/-- Appends records. -/
def appendRecords (records : List Record) : Action Unit := fun s =>
  ⟨{ s with equations := s.equations ++ records }, [], .ok ()⟩

/-- Lets a block add its variables and then its equations. -/
def build (b : Block) (shared : Source) : Action Unit := do
  addAll b.vars
  appendRecords (b.records shared)

end Block

end Equilibrium
