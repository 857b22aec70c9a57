/-
Parameter sources.

A source is absent, or a mapping, or an object that answers for its parameters itself. In a mapping
the entry of an indexed parameter is a mapping in turn: keyed by tuples of elements, or by single
elements, or nested with one level for each index.
-/
import Equilibrium.Value.Printer

namespace Equilibrium

/-- An object that answers for its parameters itself: to a name and indices it gives a value, or it
fails for a reason of its own. -/
structure Oracle where
  answer : String → List String → Except Fault Value

/-- The oracle that knows one number for each name, and adds the number of indices to it. -/
def Oracle.counting (values : Table Number) : Oracle where
  answer name indices := match values.get? name with
    | some n => (n.add (.int (Int.ofNat indices.length))).map .number
    | none => .error .unknownEntry

instance : Coe (Table Number) Oracle := ⟨Oracle.counting⟩

/-- Where parameter values come from. -/
inductive Source
  | absent
  | tables (entries : List (Key × Value))
  | oracle (object : Oracle)
  /-- A value that is no source. -/
  | unsupported (value : Value)

instance : Inhabited Source := ⟨.absent⟩

namespace Source

/-- A value as a source. -/
def ofValue : Value → Source
  | .none => absent
  | .map entries => tables entries
  | v => unsupported v

/-- Whether a source is given at all. -/
def isAbsent : Source → Bool
  | absent => true
  | _ => false

/-- The first source that is given. -/
def orElse (s t : Source) : Source := if s.isAbsent then t else s

/-- Walks down nested mappings, one level for each index. -/
def walk : Value → List String → Option Value
  | v, [] => some v
  | .map entries, i :: rest => match Value.find (.text i) entries with
    | some v => walk v rest
    | none => none
  | _, _ :: _ => none

/-- The entry of an indexed parameter: under the tuple of indices, under the only index, or nested.
-/
def lookup (entries : List (Key × Value)) (indices : List String) : Option Value :=
  match Value.find (.tuple indices) entries with
  | some v => some v
  | none => walk (.map entries) indices

/-- The value of a parameter at its indices. -/
def get (source : Source) (name : String) (indices : List String) : Except Fault Value :=
  match source with
  | absent => .error (.noParameters name)
  | oracle object => object.answer name indices
  | unsupported v => .error (.unsupportedSource v.kind)
  | tables entries => match Value.find (.text name) entries with
    | none => .error (.missingParameter name indices)
    | some entry =>
        if indices.isEmpty then .ok entry
        else match entry with
          | .map rows => match lookup rows indices with
            | some v => .ok v
            | none => .error (.missingParameter name indices)
          | _ => .error (.missingParameter name indices)

end Source

end Equilibrium
