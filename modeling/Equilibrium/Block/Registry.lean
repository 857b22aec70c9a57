/-
Classes of blocks, registered by name.

A class knows how its blocks are declared: whether their name has a default, and whether they come
with specifications. A block can be asked for by the name of a class that is at hand, and is then
declared under that name.
-/
import Equilibrium.Block

namespace Equilibrium

/-- A class of blocks. -/
structure BlockClass where
  name : String
  defaultName : Option String := none
  /-- Whether its blocks are declared with specifications. -/
  hasSpecs : Bool := false

namespace BlockClass

/-- The class of declared blocks. -/
def declarative : BlockClass := { name := "DeclarativeBlock", hasSpecs := true }

/-- Declares a block of a class. -/
def create (c : BlockClass) (form : Form) : Except Fault Block :=
  if c.hasSpecs then Block.ofForm form
  else (Block.readHeading form c.defaultName).toExcept.map fun (name, description) =>
    ⟨name, description, [], []⟩

end BlockClass

/-- A block of some class. -/
structure BlockInstance where
  className : String
  block : Block

namespace BlockInstance

/-- The written form of a block. -/
def quoted (b : BlockInstance) : String := "Block " ++ b.block.name ++ " (" ++ b.className ++ ")"

end BlockInstance

/-- A registry of classes by name. -/
abbrev Registry := Table BlockClass

namespace Registry

/-- Registers a class, unless its name is taken. -/
def register (r : Registry) (c : BlockClass) : Except Fault Registry :=
  if r.contains c.name then .error (.alreadyRegistered c.name) else .ok (r.insert c.name c)

/-- The class with this name. -/
def get (r : Registry) (name : String) : Except Fault BlockClass :=
  match r.get? name with
  | some c => .ok c
  | none => .error (.notRegistered name)

/-- Declares a block of a registered class. -/
def create (r : Registry) (name : String) (form : Form) : Except Fault BlockInstance := do
  let c ← r.get name
  return ⟨c.name, ← c.create form⟩

/-- The classes that are at hand everywhere. -/
def global : Registry :=
  Table.empty.insert BlockClass.declarative.name BlockClass.declarative

end Registry

/-- What is asked for as a block. -/
inductive BlockRequest
  | named (className : String)
  | declared (block : BlockInstance)
  | foreign (value : Value)

namespace BlockRequest

/-- A request given as a plain value: a text names a class. -/
def ofValue : Value → BlockRequest
  | .text s => named s
  | v => foreign v

/-- The block that a request stands for; a name becomes the name of the block as well. -/
def resolve : BlockRequest → Except Fault (BlockInstance ⊕ Value)
  | declared b => .ok (.inl b)
  | foreign v => .ok (.inr v)
  | named s =>
      if Registry.global.contains s then
        (Registry.global.create s (Table.empty.insert "name" (.text s))).map .inl
      else .error (.unknownBlock s)

/-- Lets the block that a request stands for add its variables and equations. -/
def build (request : BlockRequest) (shared : Source) : Action Unit := do
  match ← Action.lift request.resolve with
  | .inl b => b.block.build shared
  | .inr v => Action.fail (.notABlock v.quoted)

end BlockRequest

end Equilibrium
