/-
Terms of symbolic equations.

A term refers to variables and parameters by base name. Without indices of its own a reference takes
those of the equation instance it stands in; otherwise each index is free, to be looked up among the
bindings, or a literal element. Sums and products over a domain bind their index to each element in
turn. An equation is a term too, and so is documentation text, but neither has a value.

Where a term is expected the caller may have put any other value; `Term.plain` holds it, so that it
can be named in the fault that it leads to.
-/
import Equilibrium.Value

namespace Equilibrium

/-- An index of a reference: free, or a literal element of a set. -/
inductive IndexEntry
  | free (name : String)
  | literal (value : Value)

/-- A term of a symbolic equation. -/
inductive Term
  | var (name : String) (indices : Option (List IndexEntry))
  | param (name : String) (indices : Option (List IndexEntry))
  | const (value : Value)
  /-- Text that documents an equation. -/
  | raw (text : String)
  | index (name : String)
  | add (terms : List Term)
  | mul (factors : List Term)
  | pow (base exponent : Term)
  | div (numerator denominator : Term)
  | neg (body : Term)
  | sum (index : String) (domain : List Value) (body : Term)
  | prod (index : String) (domain : List Value) (body : Term)
  | eq (lhs rhs : Term)
  /-- A value that is no term. -/
  | plain (value : Value)

instance : Inhabited Term := ⟨.plain .none⟩

namespace Term

/-- The kind of a term, as it is named in messages. -/
def kind : Term → String
  | var _ _ => "EVar"
  | param _ _ => "EParam"
  | const _ => "EConst"
  | raw _ => "ERaw"
  | index _ => "EIndex"
  | add _ => "EAdd"
  | mul _ => "EMul"
  | pow _ _ => "EPow"
  | div _ _ => "EDiv"
  | neg _ => "ENeg"
  | sum _ _ _ => "ESum"
  | prod _ _ _ => "EProd"
  | eq _ _ => "EEq"
  | plain v => v.kind

/-- Whether the compiler is asked to compile a term: anything but documentation and plain values. -/
def isCompilable : Term → Bool
  | raw _ => false
  | plain _ => false
  | _ => true

/-- Whether an optional term is there and is to be compiled. -/
def compilable? : Option Term → Bool
  | some t => t.isCompilable
  | none => false

/-- The term, unless it is the plain value that stands for nothing. -/
def present? : Term → Option Term
  | plain .none => none
  | t => some t

end Term

/-- Equality of index entries. -/
def IndexEntry.equals : IndexEntry → IndexEntry → Bool
  | free a, free b => a == b
  | literal v, literal w => v.equals w
  | _, _ => false

/-- Equality of lists of index entries. -/
def IndexEntry.equalsList : List IndexEntry → List IndexEntry → Bool
  | [], [] => true
  | a :: as, b :: bs => a.equals b && equalsList as bs
  | _, _ => false

/-- Equality of optional lists of index entries. -/
def IndexEntry.equalsOption : Option (List IndexEntry) → Option (List IndexEntry) → Bool
  | none, none => true
  | some as, some bs => equalsList as bs
  | _, _ => false

namespace Term

mutual

/-- Equality of terms: the same kind with equal parts, where constants are equal by value. -/
def equals : Term → Term → Bool
  | var n is, other => match other with
    | var m js => n == m && IndexEntry.equalsOption is js
    | _ => false
  | param n is, other => match other with
    | param m js => n == m && IndexEntry.equalsOption is js
    | _ => false
  | const v, other => match other with
    | const w => v.equals w
    | _ => false
  | raw s, other => match other with
    | raw t => s == t
    | _ => false
  | index n, other => match other with
    | index m => n == m
    | _ => false
  | add ts, other => match other with
    | add us => equalsList ts us
    | _ => false
  | mul ts, other => match other with
    | mul us => equalsList ts us
    | _ => false
  | pow a b, other => match other with
    | pow c d => a.equals c && b.equals d
    | _ => false
  | div a b, other => match other with
    | div c d => a.equals c && b.equals d
    | _ => false
  | neg a, other => match other with
    | neg c => a.equals c
    | _ => false
  | sum i d a, other => match other with
    | sum j e c => i == j && Value.equalsList d e && a.equals c
    | _ => false
  | prod i d a, other => match other with
    | prod j e c => i == j && Value.equalsList d e && a.equals c
    | _ => false
  | eq a b, other => match other with
    | eq c d => a.equals c && b.equals d
    | _ => false
  | plain v, other => match other with
    | plain w => v.equals w
    | _ => false
termination_by structural t => t

/-- Equality of lists of terms, one by one. -/
def equalsList : List Term → List Term → Bool
  | [], others => others.isEmpty
  | t :: ts, others => match others with
    | [] => false
    | u :: us => t.equals u && equalsList ts us
termination_by structural ts => ts

end

/-- The terms that differ from every later one: one for each class of equal terms. -/
def distinct : List Term → List Term
  | [] => []
  | t :: ts => if ts.any t.equals then distinct ts else t :: distinct ts

end Term

end Equilibrium
