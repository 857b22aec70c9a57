/-
Documents: the form in which reports and datasets are saved.

A document is written over several lines, two blanks deeper for each level, with one part a line;
empty lists and objects stay on their line. Texts are written in ASCII: every other character is
escaped by its UTF-16 units.
-/
import Equilibrium.Decimal.Shortest
import Equilibrium.Text.Quoted

namespace Equilibrium

/-- A document. -/
inductive Document
  | null
  | bool (b : Bool)
  | int (n : Int)
  | real (x : Float)
  | text (s : String)
  | list (items : List Document)
  | object (fields : List (String × Document))

namespace Document

/-- A nothing, or a document made from something. -/
def optional {α : Type} (f : α → Document) : Option α → Document
  | none => null
  | some a => f a

/-- A list of texts. -/
def texts (ss : List String) : Document := list (ss.map text)

/-- Numbers in documents are figures, with names of their own for the infinities and for what is not
a number. -/
def figures : Decimal.Style :=
  { Decimal.figures with infinity := "Infinity", notANumber := "NaN" }

/-- An escape by code: a backslash, a `u` and four hexadecimal digits. -/
def escapeUnit (n : Nat) : List Char := ['\\', 'u'] ++ Text.hex 4 n

/-- The UTF-16 units of a character. -/
def units (c : Char) : List Nat :=
  let n := c.toNat
  if n < 0x10000 then [n]
  else [0xD800 + (n - 0x10000) / 0x400, 0xDC00 + (n - 0x10000) % 0x400]

/-- The characters that have an escape of their own. -/
def escapes : List (Char × Char) :=
  [('"', '"'), ('\\', '\\'), ('\n', 'n'), ('\r', 'r'), ('\t', 't'), ('\x08', 'b'), ('\x0c', 'f')]

/-- The written form of a character. -/
def escapeChar (c : Char) : List Char :=
  match escapes.lookup c with
  | some e => ['\\', e]
  | none => if 0x20 ≤ c.toNat && c.toNat ≤ 0x7E then [c] else (units c).flatMap escapeUnit

/-- The written form of a text. -/
def quoted (s : String) : String := String.ofList ('"' :: s.toList.flatMap escapeChar ++ ['"'])

/-- The blanks at the start of a line. -/
def indent (depth : Nat) : String := String.ofList (List.replicate (2 * depth) ' ')

/-- Parts between brackets, one a line; nothing between brackets if there are none. -/
def bracket (left right : String) (depth : Nat) (parts : List String) : String :=
  if parts.isEmpty then left ++ right
  else
    left ++ "\n" ++ indent (depth + 1) ++ Text.join (",\n" ++ indent (depth + 1)) parts ++ "\n" ++
      indent depth ++ right

mutual

/-- The written form of a document that starts at some depth. -/
def render (depth : Nat) : Document → String
  | null => "null"
  | bool b => if b then "true" else "false"
  | int n => toString n
  | real x => figures.text x
  | text s => quoted s
  | list items => bracket "[" "]" depth (renderAll (depth + 1) items)
  | object fields => bracket "\x7b" "\x7d" depth (renderFields (depth + 1) fields)
termination_by structural d => d

/-- The written forms of a list of documents. -/
def renderAll (depth : Nat) : List Document → List String
  | [] => []
  | d :: rest => render depth d :: renderAll depth rest
termination_by structural ds => ds

/-- The written forms of fields. -/
def renderFields (depth : Nat) : List (String × Document) → List String
  | [] => []
  | (name, d) :: rest => (quoted name ++ ": " ++ render depth d) :: renderFields depth rest
termination_by structural fs => fs

end

/-- The written form of a document. -/
def toText (d : Document) : String := render 0 d

end Document

end Equilibrium
