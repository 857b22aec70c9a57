/-
The value of an expression.

An expression has a value where all of its variables have one and no operation fails on the way:
`0 * u` has none while `u` has none, and neither has a quotient by zero or a power that overflows.

Main statements:
* `Expression.eval_native` - the value of a plain number.
-/
import Equilibrium.Expression

namespace Equilibrium

/-- The values of variables, where they have one. -/
abbrev Assignment := VarId → Option Number

namespace Expression

/-- The sum of numbers, from the left. -/
def total : List Number → Option Number
  | [] => none
  | n :: rest => (rest.foldlM Number.add n).toOption

mutual

/-- The value of an expression under an assignment. -/
def eval (values : Assignment) : Expression → Option Number
  | native (.number n) => some n
  | native _ => none
  | var id => values id
  | mono c id => match values id with
    | some n => (c.mul n).toOption
    | none => none
  | linear items => match evalAll values items with
    | some ns => total ns
    | none => none
  | sum items => match evalAll values items with
    | some ns => total ns
    | none => none
  | neg e => (eval values e).map Number.neg
  | product a b => match eval values a, eval values b with
    | some m, some n => (m.mul n).toOption
    | _, _ => none
  | quotient a b => match eval values a, eval values b with
    | some m, some n => (m.div n).toOption
    | _, _ => none
  | power a b => match eval values a, eval values b with
    | some m, some n => (m.pow n).toOption
    | _, _ => none
termination_by structural e => e

/-- The values of a list of expressions, if each has one. -/
def evalAll (values : Assignment) : List Expression → Option (List Number)
  | [] => some []
  | e :: rest => match eval values e, evalAll values rest with
    | some n, some ns => some (n :: ns)
    | _, _ => none
termination_by structural es => es

end

@[simp] theorem eval_native (values : Assignment) (n : Number) :
    eval values (native (.number n)) = some n := rfl

/-- The value as a double. A complex value is ill-typed and a whole number may be too large; without
a value there is no double either. -/
def realValue (values : Assignment) (e : Expression) : Except Fault (Option Float) :=
  match e.eval values with
  | none => .ok none
  | some n => n.toReal.map some

end Expression

end Equilibrium
