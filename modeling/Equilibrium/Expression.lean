/-
Symbolic expressions over variables.

The compiler turns a term into a plain value or into an expression over variables. The operations
below build expressions and simplify as they go: plain values are combined at once, a zero summand
and a factor, divisor or exponent of one disappear, and sums are kept flat. `x * 0` and `0 / x` stay
as they are, for the variable may have no value.

A sum of plain values, variables and multiples of variables is linear; other sums are general. Items
go to the end of the sum they join, also when they stand on the left.
-/
import Equilibrium.Value.Arithmetic
import Equilibrium.Variable

namespace Equilibrium

/-- A plain value, a variable, or an expression over variables. -/
inductive Expression
  | native (value : Value)
  | var (id : VarId)
  /-- A number times a variable. -/
  | mono (coefficient : Number) (id : VarId)
  | linear (items : List Expression)
  | sum (items : List Expression)
  | neg (body : Expression)
  | product (left right : Expression)
  | quotient (left right : Expression)
  | power (base exponent : Expression)

instance : Inhabited Expression := ⟨.native .none⟩

namespace Expression

/-- A plain number. -/
def number (n : Number) : Expression := native (.number n)

/-- Whether an expression is a plain value. -/
def isNative : Expression → Bool
  | native _ => true
  | _ => false

/-- Plain values, variables and multiples of variables are simple. -/
def isSimple : Expression → Bool
  | native _ => true
  | var _ => true
  | mono _ _ => true
  | _ => false

/-- Joins two summands neither of which disappears. -/
def joinSums (a b : Expression) : Expression :=
  match a, b with
  | linear xs, linear ys => linear (xs ++ ys)
  | sum xs, sum ys => sum (xs ++ ys)
  | sum xs, b => sum (xs ++ [b])
  | a, sum ys => sum (ys ++ [a])
  -- only simple summands keep a linear sum linear
  | linear xs, b => if b.isSimple then linear (xs ++ [b]) else sum [a, b]
  | a, linear ys => if a.isSimple then linear (ys ++ [a]) else sum [a, b]
  | a, b => if a.isSimple && b.isSimple then linear [a, b] else sum [a, b]

/-- The operands of an operation that is not between two plain values must be numbers where they are
plain. -/
def requireNumber : Expression → Except Fault Unit
  | native (.number _) => .ok ()
  | native _ => .error .illTyped
  | _ => .ok ()

/-- Whether an expression is the plain number zero. -/
def isZero : Expression → Bool
  | native (.number n) => n.isZero
  | _ => false

/-- Whether an expression is the plain number one. -/
def isOne : Expression → Bool
  | native (.number n) => n.isOne
  | _ => false

/-- The sum of two expressions. A plain zero disappears. -/
def add (a b : Expression) : Except Fault Expression :=
  match a, b with
  | native x, native y => (x.add y).map native
  | a, b => do
      a.requireNumber
      b.requireNumber
      if a.isZero then return b
      else if b.isZero then return a
      else return joinSums a b

/-- The negative of an expression; a double negation cancels. -/
def negate : Expression → Except Fault Expression
  | native x => x.neg.map native
  | var id => .ok (mono (.int (-1)) id)
  | mono c id => .ok (mono c.neg id)
  | neg e => .ok e
  | e => .ok (neg e)

/-- The difference of two expressions: the sum with the negative of the second one. -/
def sub (a b : Expression) : Except Fault Expression :=
  match a, b with
  | native x, native y => (x.sub y).map native
  | a, native y => do
      (native y).requireNumber
      add a (← negate (native y))
  | a, b => do add a (← negate b)

/-- The product with a number, where a variable or a multiple of one takes the number in. -/
def scale (n : Number) (scaled : Number → Except Fault Number) (e whole : Expression) :
    Except Fault Expression :=
  match e with
  | var id => .ok (mono n id)
  | mono c id => (scaled c).map (mono · id)
  | _ => .ok whole

/-- The product of two expressions. A plain one disappears, and a number is taken into a multiple
of a variable. -/
def mul (a b : Expression) : Except Fault Expression :=
  match a, b with
  | native x, native y => (x.mul y).map native
  | native (.number n), b =>
      if n.isOne then .ok b else scale n (fun c => n.mul c) b (product a b)
  | a, native (.number n) =>
      if n.isOne then .ok a else scale n (fun c => c.mul n) a (product a b)
  | native _, _ => .error .illTyped
  | _, native _ => .error .illTyped
  | a, b => .ok (product a b)

/-- The quotient of two expressions. A plain divisor of one disappears, and a multiple of a variable
is divided at once. -/
def div (a b : Expression) : Except Fault Expression :=
  match a, b with
  | native x, native y => (x.div y).map native
  | a, native (.number n) =>
      if n.isOne then .ok a
      else match a with
        -- the reciprocal is taken first, and rounded
        | var id => (Number.div (.int 1) n).map (mono · id)
        | mono c id => (c.div n).map (mono · id)
        | _ => if n.isZero then .error .divisionByZero else .ok (quotient a b)
  | _, native _ => .error .illTyped
  | native (.number _), b => .ok (quotient a b)
  | native _, _ => .error .illTyped
  | a, b => .ok (quotient a b)

/-- The power of an expression. A plain exponent of one disappears; zero as an exponent stays. -/
def pow (a b : Expression) : Except Fault Expression :=
  match a, b with
  | native x, native y => (x.pow y).map native
  | a, b => do
      a.requireNumber
      b.requireNumber
      if b.isOne then return a else return power a b

/-- The sum of a list of expressions, from the left; nothing adds up to the plain number `0.0`. -/
def addAll : List Expression → Except Fault Expression
  | [] => .ok (number (.real 0.0))
  | e :: rest => rest.foldlM add e

/-- The product of a list of expressions, from the left; there must be a factor. -/
def mulAll : List Expression → Except Fault Expression
  | [] => .error .emptyProduct
  | e :: rest => rest.foldlM mul e

end Expression

end Equilibrium
