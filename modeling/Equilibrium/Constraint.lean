/-
Compiled constraints.

An equation compiles to its residual, the difference of its two sides, and to a constraint: the
equality of the sides, or a complementarity that pairs the residual with a bounded variable. A
complementarity is a pair of conditions, at least one of which is to hold with equality.

Conditions between plain numbers are decided when the constraint is built.
-/
import Equilibrium.Expression.Evaluation

namespace Equilibrium

/-- One of the two conditions of a complementarity. -/
inductive Condition
  | atMost (low high : Expression)
  | between (low body high : Expression)
  | equal (left right : Expression)
  /-- An expression without a relation. -/
  | bare (body : Expression)
  /-- A condition between plain numbers, which is decided already. -/
  | decided (holds : Bool)

/-- The form of a constraint. -/
inductive Shape
  | equality (left right : Expression)
  | complementarity (first second : Condition)

/-- A compiled equation: its component name, its residual and its constraint. -/
structure Constraint where
  name : String
  residual : Expression
  shape : Shape

namespace Condition

/-- The condition that an expression is at least zero. -/
def nonneg : Expression → Except Fault Condition
  | .native (.number n) => n.isNonneg.map decided
  | .native _ => .error .illTyped
  | e => .ok (atMost (.number (.int 0)) e)

/-- The condition that an expression is at most zero. -/
def nonpos : Expression → Except Fault Condition
  | .native (.number n) => n.isNonpos.map decided
  | .native _ => .error .illTyped
  | e => .ok (atMost e (.number (.int 0)))

/-- The condition that an expression is zero. -/
def zero : Expression → Condition
  | .native (.number n) => decided n.isZero
  | .native _ => decided false
  | e => equal e (.number (.int 0))

end Condition

namespace Shape

/-- The pair of a residual and a variable. At a solution the residual is not negative at the lower
bound, not positive at the upper bound and zero in between. -/
def pair (residual : Expression) (id : VarId) (lower upper : Option Number) :
    Except Fault Shape :=
  match lower, upper with
  | some l, some u =>
      .ok (complementarity (.between (.number l) (.var id) (.number u)) (.bare residual))
  | some l, none =>
      (Condition.nonneg residual).map (complementarity (.atMost (.number l) (.var id)))
  | none, some u =>
      (Condition.nonpos residual).map (complementarity (.atMost (.var id) (.number u)))
  | none, none => .ok (complementarity (Condition.zero residual) (.bare (.var id)))

/-- Whether the right side of an equality is written first. The more special side goes first:
anything before a plain value, a linear sum before a general one, a multiple of a variable before a
product. -/
def writesRightFirst : Expression → Expression → Bool
  | .native _, _ => true
  | .sum _, .linear _ => true
  | .product _ _, .mono _ _ => true
  | _, _ => false

/-- The equality of two sides. If the residual is plain, the equality is trivially satisfied or
violated. -/
def equate (left right residual : Expression) : Shape :=
  -- there is nothing left to choose, so the equality is written between numbers
  if residual.isNative then
    if residual.isZero then equality (.number (.int 0)) (.number (.int 0))
    else equality (.number (.int 1)) (.number (.int 0))
  else if writesRightFirst left right then equality right left
  else equality left right

/-- Whether the constraint is an equality. -/
def isEquality : Shape → Bool
  | equality _ _ => true
  | complementarity _ _ => false

end Shape

namespace Constraint

/-- The value of the residual, if it has one. -/
def residualValue (values : Assignment) (c : Constraint) : Except Fault (Option Float) :=
  c.residual.realValue values

theorem residualValue_of_eval_eq_none {values : Assignment} {c : Constraint}
    (h : c.residual.eval values = none) : c.residualValue values = .ok none := by
  rw [residualValue, Expression.realValue, h]

theorem residualValue_of_eval_eq_some {values : Assignment} {c : Constraint} {n : Number}
    (h : c.residual.eval values = some n) : c.residualValue values = n.toReal.map some := by
  rw [residualValue, Expression.realValue, h]

end Constraint

end Equilibrium
