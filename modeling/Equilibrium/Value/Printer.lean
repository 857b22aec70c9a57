/-
The written form of values.

`quoted` writes a value the way it stands inside a list or a mapping, with texts in quotes;
`display` writes it the way it stands on its own in a message or a name, where a text is itself.

Main statements:
* `Value.display_text` - a text is displayed as itself.
-/
import Equilibrium.Value
import Equilibrium.Decimal.Shortest
import Equilibrium.Text.Quoted

namespace Equilibrium

/-- The text of a number. -/
def Number.text : Number → String
  | .int n => toString n
  | .real x => Decimal.figures.text x
  | .complex z => "(" ++ Decimal.figures.text z.re ++ "+" ++ Decimal.figures.text z.im ++ "j)"

/-- The text of a truth value. -/
def truthText (b : Bool) : String := if b then "True" else "False"

/-- The written form of a key. -/
def Key.quoted : Key → String
  | .none => "None"
  | .bool b => truthText b
  | .number n => n.text
  | .text s => Text.quoted s
  | .tuple names => Text.quotedTuple names

namespace Value

mutual

/-- The written form of a value inside another one. -/
def quoted : Value → String
  | none => "None"
  | bool b => truthText b
  | number n => n.text
  | text s => Text.quoted s
  | list items => "[" ++ Text.join ", " (quotedList items) ++ "]"
  | map entries => "\x7b" ++ Text.join ", " (quotedEntries entries) ++ "\x7d"
termination_by structural v => v

/-- The written forms of the items of a list. -/
def quotedList : List Value → List String
  | [] => []
  | v :: rest => v.quoted :: quotedList rest
termination_by structural v => v

/-- The written forms of the entries of a mapping. -/
def quotedEntries : List (Key × Value) → List String
  | [] => []
  | (k, v) :: rest => (k.quoted ++ ": " ++ v.quoted) :: quotedEntries rest
termination_by structural v => v

end

/-- The written form of a value on its own: a text stands for itself. -/
def display : Value → String
  | text s => s
  | v => v.quoted

/-- The written form of a list of values. -/
def quotedItems (items : List Value) : String := "[" ++ Text.join ", " (quotedList items) ++ "]"

@[simp] theorem display_text (s : String) : (text s).display = s := rfl

end Value

end Equilibrium
