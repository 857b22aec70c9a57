/-
Values as they come in from parameter tables, settings and literals.

A value is nothing, a truth value, a number, a text, a list, or a mapping. The keys of a mapping are
scalars or tuples of names; a mapping never holds two equal keys, where numbers and truth values are
equal by value.

Main statements:
* `Value.find_cons` - the first entry with an equal key is found.
-/
import Equilibrium.Number
import Equilibrium.Table

namespace Equilibrium

/-- A key of a mapping. -/
inductive Key
  | none
  | bool (b : Bool)
  | number (n : Number)
  | text (s : String)
  | tuple (names : List String)

/-- A value of any kind. -/
inductive Value
  | none
  | bool (b : Bool)
  | number (n : Number)
  | text (s : String)
  | list (items : List Value)
  | map (entries : List (Key × Value))

instance : Inhabited Value := ⟨.none⟩

namespace Key

/-- The number that a key is equal to, if any: truth values count as zero and one. -/
def number? : Key → Option Number
  | bool b => some (.int (if b then 1 else 0))
  | number n => some n
  | _ => Option.none

/-- Equality of keys. -/
def equals : Key → Key → Bool
  | none, none => true
  | text a, text b => a == b
  | tuple a, tuple b => a == b
  | a, b => match a.number?, b.number? with
    | some m, some n => m.equals n
    | _, _ => false

/-- The key as a value; a tuple becomes a list. -/
def toValue : Key → Value
  | none => .none
  | bool b => .bool b
  | number n => .number n
  | text s => .text s
  | tuple names => .list (names.map .text)

theorem equals_text (a b : String) : equals (text a) (text b) = (a == b) := rfl

theorem equals_tuple (a b : List String) : equals (tuple a) (tuple b) = (a == b) := rfl

end Key

namespace Value

/-- The entry of a mapping under a key. -/
def find (key : Key) : List (Key × Value) → Option Value
  | [] => Option.none
  | (k, v) :: rest => if key.equals k then some v else find key rest

/-- Sets an entry; a key that is present keeps its place and its spelling. -/
def put (key : Key) (value : Value) : List (Key × Value) → List (Key × Value)
  | [] => [(key, value)]
  | (k, v) :: rest => if key.equals k then (k, value) :: rest else (k, v) :: put key value rest

/-- The mapping built by setting the entries one after the other. -/
def ofEntries (entries : List (Key × Value)) : Value :=
  .map (entries.foldl (fun acc e => put e.1 e.2 acc) [])

/-- The mapping of a table. -/
def ofTable (t : Table Value) : Value :=
  .map (t.toList.map fun e => (.text e.1, e.2))

/-- The kind of a value, as it is named in messages. -/
def kind : Value → String
  | none => "NoneType"
  | bool _ => "bool"
  | number (.int _) => "int"
  | number (.real _) => "float"
  | number (.complex _) => "complex"
  | text _ => "str"
  | list _ => "list"
  | map _ => "dict"

/-- Whether the value is nothing. -/
def isNone : Value → Bool
  | none => true
  | _ => false

/-- Empty, zero and false values do not hold. -/
def holds : Value → Bool
  | none => false
  | bool b => b
  | number n => !n.isZero
  | text s => !s.isEmpty
  | list items => !items.isEmpty
  | map entries => !entries.isEmpty

/-- The parts of a value that can be gone through: the characters of a text, the items of a list,
the keys of a mapping. -/
def parts? : Value → Option (List Value)
  | text s => some (s.toList.map fun c => text (String.singleton c))
  | list items => some items
  | map entries => some (entries.map fun e => e.1.toValue)
  | _ => Option.none

/-- The number that a value counts as in arithmetic: truth values count as zero and one. -/
def number? : Value → Option Number
  | bool b => some (.int (if b then 1 else 0))
  | number n => some n
  | _ => Option.none

mutual

/-- Equality of values: by kind and content, numbers and truth values by value, mappings whatever
the order of their entries. -/
def equals : Value → Value → Bool
  | none, other => other.isNone
  | bool b, other => match other.number? with
    | some n => (Number.int (if b then 1 else 0)).equals n
    | Option.none => false
  | number m, other => match other.number? with
    | some n => m.equals n
    | Option.none => false
  | text a, other => match other with
    | text b => a == b
    | _ => false
  | list xs, other => match other with
    | list ys => equalsList xs ys
    | _ => false
  | map xs, other => match other with
    | map ys => xs.length == ys.length && equalsEntries xs ys
    | _ => false
termination_by structural v => v

/-- Equality of lists of values, item by item. -/
def equalsList : List Value → List Value → Bool
  | [], ys => ys.isEmpty
  | x :: xs, ys => match ys with
    | [] => false
    | y :: rest => x.equals y && equalsList xs rest
termination_by structural v => v

/-- Whether every entry has an equal one in the other mapping. -/
def equalsEntries : List (Key × Value) → List (Key × Value) → Bool
  | [], _ => true
  | (k, v) :: rest, ys => match find k ys with
    | some w => v.equals w && equalsEntries rest ys
    | Option.none => false
termination_by structural v => v

end

theorem find_nil (key : Key) : find key [] = Option.none := rfl

theorem find_cons (key k : Key) (v : Value) (rest : List (Key × Value)) :
    find key ((k, v) :: rest) = if key.equals k then some v else find key rest := rfl

end Value

end Equilibrium
