/-
Values as doubles.

Numbers and truth values convert; a text converts if it is a numeral.
-/
import Equilibrium.Value
import Equilibrium.Decimal.Numeral

namespace Equilibrium.Value

/-- The double that a value stands for. -/
def toReal : Value → Except Fault Float
  | bool b => .ok (if b then 1.0 else 0.0)
  | number n => n.toReal
  | text s => match Decimal.toFloat? s with
    | some x => .ok x
    | Option.none => .error .badValue
  | _ => .error .illTyped

end Equilibrium.Value
