/-
Named choices and how they are looked up.

Each vocabulary lists its names; a name is found whatever its case and with blanks around it.

Main statements:
* `Vocabulary.find_congr` - only the normalized form of a name matters.
-/
import Equilibrium.Value.Printer
import Equilibrium.Text.Blank

namespace Equilibrium

namespace Vocabulary

/-- Looks a name up among the names of a vocabulary. -/
def find {α : Type} (names : List (String × α)) (s : String) : Option α :=
  Table.seek (Text.normalize s) names

theorem find_congr {α : Type} (names : List (String × α)) {s t : String}
    (h : Text.normalize s = Text.normalize t) : find names s = find names t := by
  simp [find, h]

end Vocabulary

/-- The sense of an objective. -/
inductive Sense
  | maximize
  | minimize
  deriving Repr, DecidableEq

namespace Sense

/-- The name of a sense. -/
def name : Sense → String
  | maximize => "maximize"
  | minimize => "minimize"

/-- The names under which senses are found. -/
def aliases : List (String × Sense) :=
  [("max", maximize), ("maximize", maximize), ("maximise", maximize), ("min", minimize),
    ("minimize", minimize), ("minimise", minimize)]

/-- The sense that a value names; nothing stands for the maximum. -/
def ofValue : Value → Except Fault Sense
  | .none => .ok maximize
  | v => match Vocabulary.find aliases v.display with
    | some s => .ok s
    | none => .error (.unknownSense v.display)

end Sense

/-- How deep a validation goes. -/
inductive Level
  | basic
  | full
  deriving Repr, DecidableEq

namespace Level

/-- The name of a level. -/
def name : Level → String
  | basic => "basic"
  | full => "full"

/-- The names under which levels are found. -/
def aliases : List (String × Level) := [("basic", basic), ("full", full), ("extended", full)]

/-- The level that a value names; empty, zero and false values stand for the basic one. -/
def ofValue (v : Value) : Except Fault Level :=
  match Vocabulary.find aliases (if v.holds then v.display else basic.name) with
  | some l => .ok l
  | none => .error (.unknownLevel v.display)

end Level

/-- The categories of a validation report. -/
inductive Category
  | structural
  | residuals
  | mcp
  | scaling
  deriving Repr, DecidableEq

namespace Category

/-- The name of a category. -/
def name : Category → String
  | structural => "structural"
  | residuals => "residuals"
  | mcp => "mcp"
  | scaling => "scaling"

/-- The names under which categories are found. -/
def aliases : List (String × Category) :=
  [structural, residuals, mcp, scaling].map fun c => (c.name, c)

/-- The category that a value names. -/
def ofValue (v : Value) : Except Fault Category :=
  match Vocabulary.find aliases v.display with
  | some c => .ok c
  | none => .error (.unknownCategory v.display)

end Category

namespace Lexicon

/-- The members of a vocabulary of the exported dataset. -/
def members : Lexicon → List String
  | componentType => ["generator", "load", "line", "storage", "market", "other"]
  | constraintKind => ["balance", "capacity", "limit", "policy", "other"]
  | constraintSense => ["eq", "le", "ge"]

/-- The member that a value names. -/
def find (l : Lexicon) (v : Value) : Except Fault String :=
  match Vocabulary.find (l.members.map fun m => (m, m)) v.display with
  | some m => .ok m
  | none => .error (.unknownMember l v.display)

end Lexicon

end Equilibrium
