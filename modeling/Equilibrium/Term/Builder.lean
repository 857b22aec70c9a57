/-
Building terms from parts.

The builders accept numbers wherever a term is expected and turn them into constants; they are
called by name with a list of arguments. References built without indices inherit those of their
equation, the scalar ones never do.
-/
import Equilibrium.Term.Printer
import Equilibrium.Value.Conversion

namespace Equilibrium.Term

/-- The builders. -/
inductive Builder
  | var
  | scalarVar
  | param
  | scalarParam
  | const
  | index
  | add
  | mul
  | power
  | div
  | neg
  | sumOver
  | prodOver
  | eq
  deriving Repr, DecidableEq

/-- A term as it is; any other value as a constant. -/
def lift : Term → Except Fault Term
  | plain v => do
      let x ← v.toReal
      return const (.number (.real x))
  | t => .ok t

/-- A list of terms, each lifted. -/
def liftAll (ts : List Term) : Except Fault (List Term) := ts.mapM lift

/-- A name given as an argument. -/
def asName : Term → String
  | plain v => v.display
  | t => t.quoted

/-- An index given as an argument: free if it is an index term, else a literal. -/
def asEntry : Term → IndexEntry
  | index name => .free name
  | plain v => .literal v
  | t => .literal (.text t.quoted)

/-- Index arguments; none at all means that the indices are inherited. -/
def asEntries (ts : List Term) : Option (List IndexEntry) :=
  if ts.isEmpty then none else some (ts.map asEntry)

/-- A domain given as an argument. -/
def asDomain : Term → Except Fault (List Value)
  | plain v => match v.parts? with
    | some items => .ok items
    | none => .error .illTyped
  | _ => .error .illTyped

/-- Applies a builder to its arguments; a wrong number of them is ill-typed. -/
def build : Builder → List Term → Except Fault Term
  | .var, name :: is => .ok (Term.var (asName name) (asEntries is))
  | .scalarVar, [name] => .ok (Term.var (asName name) (some []))
  | .param, name :: is => .ok (Term.param (asName name) (asEntries is))
  | .scalarParam, [name] => .ok (Term.param (asName name) (some []))
  | .const, [plain v] => lift (plain v)
  | .index, [name] => .ok (Term.index (asName name))
  | .add, ts => (liftAll ts).map Term.add
  | .mul, ts => (liftAll ts).map Term.mul
  | .power, [a, b] => do return Term.pow (← lift a) (← lift b)
  | .div, [a, b] => do return Term.div (← lift a) (← lift b)
  | .neg, [a] => (lift a).map Term.neg
  | .sumOver, [i, d, body] => (asDomain d).map fun items => Term.sum (asName i) items body
  | .prodOver, [i, d, body] => (asDomain d).map fun items => Term.prod (asName i) items body
  | .eq, [a, b] => do return Term.eq (← lift a) (← lift b)
  | _, _ => .error .illTyped

end Equilibrium.Term
