/-
Numbers: whole numbers of any size, doubles, and complex numbers.

Whole numbers stay whole under addition, multiplication and non-negative powers. As soon as one
operand is a double the other is rounded to one, which fails if it is too large; quotients of whole
numbers are the double nearest to the exact quotient.

Main statements:
* `Number.add_int`, `Number.mul_int`, `Number.neg_int`, `Number.pow_int` - on whole numbers the
  operations are those of the integers.
-/
import Equilibrium.Number.Complex

namespace Equilibrium

/-- A whole number, a double or a complex number. -/
inductive Number
  | int (n : Int)
  | real (x : Float)
  | complex (z : Complex)

namespace Number

instance : Inhabited Number := ⟨int 0⟩

/-- The double nearest to a whole number, if it is in range. -/
def realOfInt (n : Int) : Except Fault Float :=
  let x := Binary.ofInt n
  if x.isInf then .error .overflow else .ok x

/-- The number as a double; complex numbers have none. -/
def toReal : Number → Except Fault Float
  | int n => realOfInt n
  | real x => .ok x
  | complex _ => .error .illTyped

/-- The number as a complex number. -/
def toComplex : Number → Except Fault Complex
  | int n => (realOfInt n).map (⟨·, 0.0⟩)
  | real x => .ok ⟨x, 0.0⟩
  | complex z => .ok z

/-- Whether the number is complex. -/
def isComplex : Number → Bool
  | complex _ => true
  | _ => false

/-- Applies an operation in the smallest of the three domains that holds both operands. -/
def lift (onInt : Int → Int → Except Fault Number) (onReal : Float → Float → Except Fault Number)
    (onComplex : Complex → Complex → Except Fault Number) : Number → Number → Except Fault Number
  | int a, int b => onInt a b
  | a, b =>
      if a.isComplex || b.isComplex then do
        let z ← a.toComplex
        let w ← b.toComplex
        onComplex z w
      else do
        let x ← a.toReal
        let y ← b.toReal
        onReal x y

/-- The sum; complex or double if one of the summands is. -/
def add : Number → Number → Except Fault Number :=
  lift (fun a b => .ok (int (a + b))) (fun x y => .ok (real (x + y)))
    (fun z w => .ok (complex (z.add w)))

/-- The difference, in the domain of the sum. -/
def sub : Number → Number → Except Fault Number :=
  lift (fun a b => .ok (int (a - b))) (fun x y => .ok (real (x - y)))
    (fun z w => .ok (complex (z.sub w)))

/-- The product, in the domain of the sum. -/
def mul : Number → Number → Except Fault Number :=
  lift (fun a b => .ok (int (a * b))) (fun x y => .ok (real (x * y)))
    (fun z w => .ok (complex (z.mul w)))

/-- The negative of a number, in its own domain. -/
def neg : Number → Number
  | int n => int (-n)
  | real x => real (-x)
  | complex z => complex z.neg

/-- The double nearest to the quotient of two whole numbers. -/
def divInt (a b : Int) : Except Fault Number :=
  if b = 0 then .error .divisionByZero
  else
    let x := Binary.ofRatio ((a < 0) != (b < 0)) a.natAbs b.natAbs
    if x.isInf then .error .overflow else .ok (real x)

/-- The quotient of two doubles; zero divides nothing, infinity included. -/
def divReal (x y : Float) : Except Fault Number :=
  if y == 0.0 then .error .divisionByZero else .ok (real (x / y))

/-- The quotient, which is never whole: two whole numbers give a double. -/
def div : Number → Number → Except Fault Number :=
  lift divInt divReal (fun z w => (z.div w).map complex)

/-- Whether a double is an odd whole number. -/
def isOddReal (x : Float) : Bool :=
  match Binary.classify x with
  | .finite p => p.isOdd
  | _ => false

/-- The power of a finite base other than zero to a finite exponent. -/
def powFinite (x y : Float) : Except Fault Number :=
  if x < 0.0 && y != y.floor then (Complex.pow ⟨x, 0.0⟩ ⟨y, 0.0⟩).map complex
  else
    let negate := x < 0.0 && isOddReal y
    let r := Float.pow x.abs y
    if r.isInf then .error .overflow else .ok (real (if negate then -r else r))

/-- The power of two doubles. Zero has no negative powers, a negative base with a fractional
exponent gives a complex number, and a finite power beyond the largest double is refused. -/
def powReal (x y : Float) : Except Fault Number :=
  if y == 0.0 then .ok (real 1.0)
  else if x.isNaN then .ok (real x)
  else if y.isNaN then .ok (real (if x == 1.0 then 1.0 else y))
  else if y.isInf then
    -- the powers of a base above one grow beyond all limits, those of one below it vanish
    let size := x.abs
    if size == 1.0 then .ok (real 1.0)
    else if (y > 0.0) == (size > 1.0) then .ok (real y.abs)
    else .ok (real 0.0)
  else if x.isInf then
    -- odd powers keep the sign of an infinite base
    let odd := isOddReal y
    if y > 0.0 then .ok (real (if odd then x else x.abs))
    else .ok (real (if odd && x < 0.0 then -0.0 else 0.0))
  else if x == 0.0 then
    if y < 0.0 then .error .divisionByZero
    else .ok (real (if isOddReal y then x else 0.0))
  else powFinite x y

/-- The power of two whole numbers: whole for a non-negative exponent, else a power of doubles. -/
def powInt (a b : Int) : Except Fault Number :=
  if 0 ≤ b then .ok (int (a.pow b.toNat))
  else do
    let x ← realOfInt a
    let y ← realOfInt b
    powReal x y

/-- The power, in the domain of the sum where the exponent allows it. -/
def pow : Number → Number → Except Fault Number :=
  lift powInt powReal (fun z w => (z.pow w).map complex)

/-- Exact comparison of a double with a whole number. -/
def realEqualsInt (x : Float) (n : Int) : Bool :=
  match Binary.classify x with
  | .finite p => Binary.compareInt p n == .eq
  | _ => false

/-- Equality by value, across the three domains. -/
def equals : Number → Number → Bool
  | int a, int b => a == b
  | int a, real y => realEqualsInt y a
  | real x, int b => realEqualsInt x b
  | real x, real y => x == y
  | complex z, complex w => z.re == w.re && z.im == w.im
  | complex z, int b => z.im == 0.0 && realEqualsInt z.re b
  | int a, complex w => w.im == 0.0 && realEqualsInt w.re a
  | complex z, real y => z.im == 0.0 && z.re == y
  | real x, complex w => w.im == 0.0 && x == w.re

/-- Whether the number equals zero. -/
def isZero (a : Number) : Bool := a.equals (int 0)

/-- Whether the number equals one. -/
def isOne (a : Number) : Bool := a.equals (int 1)

/-- Whether the number is at least zero; complex numbers are not ordered. -/
def isNonneg : Number → Except Fault Bool
  | int a => .ok (0 ≤ a)
  | real x => .ok (x >= 0.0)
  | complex _ => .error .illTyped

/-- Whether the number is at most zero; complex numbers are not ordered. -/
def isNonpos : Number → Except Fault Bool
  | int a => .ok (a ≤ 0)
  | real x => .ok (x <= 0.0)
  | complex _ => .error .illTyped

@[simp] theorem add_int (a b : Int) : add (int a) (int b) = .ok (int (a + b)) := rfl

@[simp] theorem mul_int (a b : Int) : mul (int a) (int b) = .ok (int (a * b)) := rfl

@[simp] theorem neg_int (a : Int) : neg (int a) = int (-a) := rfl

@[simp] theorem pow_int (a : Int) (n : Nat) : pow (int a) (int n) = .ok (int (a.pow n)) := by
  simp [pow, lift, powInt]

@[simp] theorem isZero_int (a : Int) : isZero (int a) = (a == 0) := rfl

@[simp] theorem isOne_int (a : Int) : isOne (int a) = (a == 1) := rfl

end Number

end Equilibrium
