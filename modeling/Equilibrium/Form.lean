/-
Reading forms.

A form is a table of entries by field name. Each field reads its entry, and the flaws of all fields
are collected in the order in which the form declares them, so a refusal names every refused entry.

Main statements:
* `Checked.both_eq_ok` - a form is read exactly when each of its parts is;
* `Checked.both_flaws` - the flaws of two parts are those of the first and then those of the second.
-/
import Equilibrium.Value.Conversion
import Equilibrium.Value.Printer

namespace Equilibrium

/-- What was read, or every flaw that was found. -/
def Checked (α : Type) : Type := Except (List Flaw) α

namespace Checked

variable {α β γ : Type}

/-- A reading without flaws. -/
def ok (a : α) : Checked α := Except.ok a

/-- A reading with a single flaw at the place itself. -/
def flaw (cause : Invalidity) : Checked α := Except.error [⟨[], cause⟩]

/-- The flaws of a reading. -/
def flaws : Checked α → List Flaw
  | Except.ok _ => []
  | Except.error fs => fs

/-- Both readings, or the flaws of both. -/
def both (x : Checked α) (y : Checked β) : Checked (α × β) :=
  match x, y with
  | Except.ok a, Except.ok b => Except.ok (a, b)
  | x, y => Except.error (x.flaws ++ y.flaws)

/-- Changes what was read. -/
def map (f : α → β) : Checked α → Checked β
  | Except.ok a => Except.ok (f a)
  | Except.error fs => Except.error fs

/-- Places the flaws of a reading below one step. -/
def within (step : Step) : Checked α → Checked α
  | Except.ok a => Except.ok a
  | Except.error fs => Except.error (fs.map (Flaw.within step))

/-- Goes on with what was read. -/
def andThen (x : Checked α) (f : α → Checked β) : Checked β :=
  match x with
  | Except.ok a => f a
  | Except.error fs => Except.error fs

/-- A reading of every item, or the flaws of all of them. -/
def all : List (Checked α) → Checked (List α)
  | [] => ok []
  | x :: rest => (x.both (all rest)).map fun p => p.1 :: p.2

/-- The flaws as a fault. -/
def toExcept : Checked α → Except Fault α
  | Except.ok a => .ok a
  | Except.error fs => .error (.invalid fs)

theorem both_eq_ok (x : Checked α) (y : Checked β) (a : α) (b : β) :
    x.both y = ok (a, b) ↔ x = ok a ∧ y = ok b := by
  cases x with
  | error e => exact ⟨fun h => by injection h, fun h => by injection h.1⟩
  | ok c => cases y with
    | error e => exact ⟨fun h => by injection h, fun h => by injection h.2⟩
    | ok d =>
        constructor
        · intro h
          have h' : (c, d) = (a, b) := Except.ok.inj h
          exact ⟨congrArg Except.ok (Prod.mk.inj h').1, congrArg Except.ok (Prod.mk.inj h').2⟩
        · intro ⟨h1, h2⟩
          exact congrArg Except.ok (Prod.ext (Except.ok.inj h1) (Except.ok.inj h2))

theorem both_flaws (x : Checked α) (y : Checked β) : (x.both y).flaws = x.flaws ++ y.flaws := by
  cases x <;> cases y <;> rfl

@[simp] theorem flaws_map (f : α → β) (x : Checked α) : (x.map f).flaws = x.flaws := by
  cases x <;> rfl

end Checked

/-- The entries of a form. -/
abbrev Form := Table Value

namespace Form

/-- The form in a mapping: its entries under texts. -/
def ofEntries (entries : List (Key × Value)) : Form :=
  Table.ofList (entries.filterMap fun e => match e.1 with
    | .text s => some (s, e.2)
    | _ => none)

/-- Reads a number as a double. -/
def real : Value → Checked Float
  | .text s => match Decimal.toFloat? s with
    | some x => .ok x
    | none => .flaw .badNumeral
  | .bool b => .ok (if b then 1.0 else 0.0)
  | .number n => match n.toReal with
    | .ok x => .ok x
    | .error _ => .flaw .notNumber
  | _ => .flaw .notNumber

/-- Reads a number above a limit. -/
def realAbove (limit : Float) (v : Value) : Checked Float :=
  (real v).andThen fun x => if x > limit then .ok x else .flaw .notGreater

/-- Reads a number that is not below a limit. -/
def realFrom (limit : Float) (v : Value) : Checked Float :=
  (real v).andThen fun x => if x >= limit then .ok x else .flaw .notAtLeast

/-- Reads a whole number. -/
def whole : Value → Checked Int
  | .text s => match Decimal.toInt? s with
    | some n => .ok n
    | none => .flaw .badWhole
  | .bool b => .ok (if b then 1 else 0)
  | .number (.int n) => .ok n
  | .number (.real x) =>
      if x.isInf || x.isNaN then .flaw .notFinite
      else match Binary.toInt? x with
        | some n => .ok n
        | none => .flaw .fractional
  | _ => .flaw .notWhole

/-- Reads a whole number that is not below a limit. -/
def wholeFrom (limit : Int) (v : Value) : Checked Int :=
  (whole v).andThen fun n => if limit ≤ n then .ok n else .flaw .notAtLeast

/-- Reads a text. -/
def text : Value → Checked String
  | .text s => .ok s
  | _ => .flaw .notText

/-- Reads a text of at least one character. -/
def someText (v : Value) : Checked String :=
  (text v).andThen fun s => if s.isEmpty then .flaw .tooShort else .ok s

/-- The words for true and false. -/
def truthWords : List (String × Bool) :=
  [("0", false), ("off", false), ("f", false), ("false", false), ("n", false), ("no", false),
    ("1", true), ("on", true), ("t", true), ("true", true), ("y", true), ("yes", true)]

/-- Reads a truth value. -/
def truth : Value → Checked Bool
  | .bool b => .ok b
  | .number n =>
      if n.isZero then .ok false else if n.isOne then .ok true else .flaw .badTruth
  | .text s => match truthWords.lookup (String.ofList (s.toList.map Char.toLower)) with
    | some b => .ok b
    | none => .flaw .badTruth
  | _ => .flaw .notTruth

/-- The step to an entry of a mapping. Whole numbers of at most 64 bits are positions. -/
def stepOf : Key → Step
  | .text s => .field s
  | .bool b => .position (if b then 1 else 0)
  | .number (.int n) =>
      if -0x8000000000000000 ≤ n && n < 0x8000000000000000 then .position n
      else .field (Key.number (.int n)).quoted
  | k => .field k.quoted

/-- Reads the entries of a mapping; every key must be a text. -/
def tableOf {α : Type} (item : Value → Checked α) : Value → Checked (Table α)
  | .map entries =>
      (Checked.all (entries.map fun e =>
        match e.1 with
        | .text s => (Checked.within (.field s) (item e.2)).map fun a => (s, a)
        | k => Checked.within (stepOf k) (Checked.within (.field "[key]") (.flaw .notText)))).map
          Table.ofList
  | _ => .flaw .notMapping

/-- Reads nothing, or what `item` reads. -/
def optional {α : Type} (item : Value → Checked α) : Value → Checked (Option α)
  | .none => .ok none
  | v => (item v).map some

/-- Reads a list of texts, each at its position. -/
def texts : Value → Checked (List String)
  | .list items =>
      Checked.all (items.mapIdx fun n v => Checked.within (.position (Int.ofNat n)) (text v))
  | _ => .flaw .notTuple

/-- Reads a field, or takes the default if the form has no such entry. -/
def field {α : Type} (form : Form) (name : String) (item : Value → Checked α) (default : α) :
    Checked α :=
  match form.get? name with
  | some v => Checked.within (.field name) (item v)
  | none => .ok default

/-- Reads a field that must be there. -/
def required {α : Type} (form : Form) (name : String) (item : Value → Checked α) : Checked α :=
  Checked.within (.field name) <| match form.get? name with
    | some v => item v
    | none => .flaw .missing

/-- The texts of the parts of a value; a value without parts is ill-typed. -/
def names (v : Value) : Except Fault (List String) :=
  match v.parts? with
  | some items => .ok (items.map Value.display)
  | none => .error .illTyped

end Form

end Equilibrium
