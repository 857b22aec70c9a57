/-
Variables.

A variable has a component name, a value or none, bounds or none, and may be fixed. Values and
bounds are kept as they are given. An infinite bound on its harmless side is no bound; on the other
side it makes reading the bound fail, and so does a bound that is not a number.
-/
import Equilibrium.Number

namespace Equilibrium

/-- The place of a variable among all variables of a system, by which expressions refer to it. -/
abbrev VarId := Nat

/-- A variable. -/
structure Variable where
  name : String
  value : Option Number
  fixed : Bool
  lower : Option Number
  upper : Option Number

namespace Variable

/-- Reads a bound; `harmless` says which infinite number stands for no bound. -/
def readBound (harmless : Float → Bool) : Option Number → Except Fault (Option Number)
  | some (.real x) =>
      if harmless x then .ok none
      else if x.isInf || x.isNaN then .error .badValue
      else .ok (some (.real x))
  | bound => .ok bound

/-- The lower bound. -/
def readLower (v : Variable) : Except Fault (Option Number) :=
  readBound (fun x => x.isInf && x < 0.0) v.lower

/-- The upper bound. -/
def readUpper (v : Variable) : Except Fault (Option Number) :=
  readBound (fun x => x.isInf && x > 0.0) v.upper

/-- Fixes the variable to a value. -/
def fix (v : Variable) (value : Option Number) : Variable :=
  { v with value := value, fixed := true }

end Variable

end Equilibrium
