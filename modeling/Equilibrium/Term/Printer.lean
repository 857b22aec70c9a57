/-
The written form of terms.

A term is written with the name of its kind and its parts by name; lists of parts are written as
tuples, and optional indices as `None` or a tuple.
-/
import Equilibrium.Term
import Equilibrium.Value.Printer

namespace Equilibrium

/-- The written form of an index entry. -/
def IndexEntry.quoted : IndexEntry → String
  | free name => "EIndex(name=" ++ Text.quoted name ++ ")"
  | literal v => v.quoted

/-- The text of an optional list of index entries. -/
def IndexEntry.quotedOption : Option (List IndexEntry) → String
  | none => "None"
  | some entries => Text.tuple (entries.map quoted)

namespace Term

/-- A term of some kind with its parts by name. -/
def call (kind : String) (parts : List (String × String)) : String :=
  kind ++ "(" ++ Text.join ", " (parts.map fun p => p.1 ++ "=" ++ p.2) ++ ")"

/-- The written form of a domain. -/
def quotedDomain (domain : List Value) : String := Text.tuple (domain.map Value.quoted)

mutual

/-- The written form of a term. -/
def quoted : Term → String
  | var name is => call "EVar" [("name", Text.quoted name), ("idxs", IndexEntry.quotedOption is)]
  | param name is =>
      call "EParam" [("name", Text.quoted name), ("idxs", IndexEntry.quotedOption is)]
  | const v => call "EConst" [("value", v.quoted)]
  | raw text => call "ERaw" [("text", Text.quoted text)]
  | index name => call "EIndex" [("name", Text.quoted name)]
  | add ts => call "EAdd" [("terms", Text.tuple (quotedList ts))]
  | mul ts => call "EMul" [("factors", Text.tuple (quotedList ts))]
  | pow a b => call "EPow" [("base", a.quoted), ("exponent", b.quoted)]
  | div a b => call "EDiv" [("numerator", a.quoted), ("denominator", b.quoted)]
  | neg a => call "ENeg" [("expr", a.quoted)]
  | sum i d a =>
      call "ESum" [("index", Text.quoted i), ("domain", quotedDomain d), ("expr", a.quoted)]
  | prod i d a =>
      call "EProd" [("index", Text.quoted i), ("domain", quotedDomain d), ("expr", a.quoted)]
  | eq a b => call "EEq" [("lhs", a.quoted), ("rhs", b.quoted)]
  | plain v => v.quoted
termination_by structural t => t

/-- The written forms of a list of terms. -/
def quotedList : List Term → List String
  | [] => []
  | t :: ts => t.quoted :: quotedList ts
termination_by structural ts => ts

end

end Term

end Equilibrium
