/-
Equation records.

A record is one equation instance: a tag for its role, the block that owns it, and its payload. A
structured payload holds the terms of the equation, what its names refer to, and, once known, its
compiled constraint and its residual; any other payload is kept as it is and never compiled.
-/
import Equilibrium.Compilation
import Equilibrium.Constraint
import Equilibrium.Form

namespace Equilibrium

/-- What a record holds as its constraint. -/
inductive Attachment
  | compiled (constraint : Constraint)
  | foreign (value : Value)

/-- The structured payload of an equation record. -/
structure Payload where
  equation : Option Term
  objective : Option Term
  /-- The sense of the objective, as it was given. -/
  sense : Value
  indexNames : Option (List String)
  indices : List String
  params : Source
  /-- The complementary variable. -/
  pairing : Option Term
  constraint : Option Attachment
  residual : Option Float
  /-- Entries under any other name, as they were given. -/
  extra : Table Value

/-- The payload of a record. -/
inductive Content
  | structured (payload : Payload)
  | foreign (value : Value)

/-- An equation record. -/
structure Record where
  tag : String
  block : String
  content : Content

/-- The entries from which a payload is made: terms, a parameter source, and plain values. -/
structure PayloadForm where
  equation : Option Term
  objective : Option Term
  pairing : Option Term
  params : Source
  rest : Form

namespace Payload

/-- The names with a meaning of their own in a payload. -/
def reservedNames : List String :=
  ["expr", "objective_expr", "objective_sense", "index_names", "indices", "params", "mcp_var",
    "constraint", "residual"]

/-- Index names: nothing, or the texts of the parts of a value. -/
def readNames : Value → Except Fault (Option (List String))
  | .none => .ok none
  | v => (Form.names v).map some

/-- Indices: none at all for nothing, a text as a single index, else the texts of the parts. -/
def readIndices : Value → Except Fault (List String)
  | .none => .ok []
  | .text s => .ok [s]
  | v => Form.names v

/-- Makes a payload from its entries. -/
def ofForm (form : PayloadForm) : Except Fault Payload := do
  let entry (name : String) : Value := (form.rest.get? name).getD .none
  let names ← readNames (entry "index_names")
  let indices ← readIndices (entry "indices")
  let residual ← (Form.field form.rest "residual" (Form.optional Form.real) none).toExcept
  return {
    equation := form.equation
    objective := form.objective
    sense := entry "objective_sense"
    indexNames := names
    indices := indices
    params := form.params
    pairing := form.pairing
    constraint := match entry "constraint" with
      | .none => none
      | v => some (.foreign v)
    residual := residual
    extra := ⟨form.rest.toList.filter fun e => !reservedNames.contains e.1⟩ }

/-- The bindings of an equation instance, with a remark if names and indices do not match. -/
def bindings (p : Payload) : Bindings × List Notice :=
  Bindings.ofIndices (p.indexNames.map (·.map .text)) (p.indices.map .text)

/-- The compiled constraint, if there is one. -/
def compiled? (p : Payload) : Option Constraint :=
  match p.constraint with
  | some (.compiled c) => some c
  | _ => none

end Payload

namespace PayloadForm

/-- The entries of a mapping with texts as keys, each taken as a plain value. -/
def ofTable (entries : Form) : PayloadForm :=
  let term (name : String) : Option Term := (entries.get? name).bind fun v =>
    (Term.plain v).present?
  { equation := term "expr"
    objective := term "objective_expr"
    pairing := term "mcp_var"
    params := Source.ofValue ((entries.get? "params").getD .none)
    rest := entries }

end PayloadForm

namespace Content

/-- The payload of a plain value: a mapping is read as the entries of a structured payload, and any
other value is kept. -/
def ofValue : Value → Except Fault Content
  | .map entries => do
      let strays := entries.filterMap fun e => match e.1 with
        | .text _ => none
        | k => some (Flaw.mk [Form.stepOf k] .badKey)
      let payload ← Payload.ofForm (.ofTable (Form.ofEntries entries))
      if strays.isEmpty then return structured payload else .error (.invalid strays)
  | v => .ok (foreign v)

end Content

namespace Record

/-- A record made from values; the tag and the block must be texts. -/
def ofValues (tag block : Value) (content : Content) : Checked Record :=
  ((Checked.within (.field "tag") (Form.text tag)).both
    (Checked.within (.field "block") (Form.text block))).map fun (tag, block) =>
      ⟨tag, block, content⟩

/-- The structured payload, if the record has one. -/
def structured? (r : Record) : Option Payload :=
  match r.content with
  | .structured p => some p
  | .foreign _ => none

/-- The indices of the instance; a record without structured payload has none. -/
def indices (r : Record) : List String :=
  match r.structured? with
  | some p => p.indices
  | none => []

/-- The label of an equation instance. -/
def labelOf (block tag : String) (indices : List String) : String :=
  block ++ "." ++ tag ++ " " ++ Text.quotedTuple indices

/-- The label of a record. -/
def label (r : Record) : String := labelOf r.block r.tag r.indices

/-- The record with another constraint. -/
def withConstraint (r : Record) (constraint : Option Attachment) : Except Fault Record :=
  match r.content with
  | .structured p => .ok { r with content := .structured { p with constraint := constraint } }
  | .foreign _ => .error (.unstructuredPayload .constraint r.label)

/-- The record with another residual, or with none. -/
def withResidual (r : Record) (residual : Option Float) : Except Fault Record :=
  match r.content with
  | .structured p => .ok { r with content := .structured { p with residual := residual } }
  | .foreign _ => .error (.unstructuredPayload .residual r.label)

/-- The record with a residual given as a value. -/
def withResidualValue (r : Record) : Value → Except Fault Record
  | .none => r.withResidual none
  | v => match r.content with
    | .foreign _ => .error (.unstructuredPayload .residual r.label)
    | .structured _ => do
        let x ← v.toReal
        r.withResidual (some x)

end Record

end Equilibrium
