/-
Complex numbers with double parts.

A power of a negative number to a fractional exponent is complex. Only whether such a value exists
is ever reported, so these operations matter for what they refuse: division by zero, a negative or
complex power of zero, and powers that overflow.
-/
import Equilibrium.Decimal.Binary
import Equilibrium.Fault

namespace Equilibrium

/-- A complex number. -/
structure Complex where
  re : Float
  im : Float

namespace Complex

/-- The sum, part by part. -/
def add (a b : Complex) : Complex := ⟨a.re + b.re, a.im + b.im⟩

/-- The difference, part by part. -/
def sub (a b : Complex) : Complex := ⟨a.re - b.re, a.im - b.im⟩

/-- The negative, part by part. -/
def neg (a : Complex) : Complex := ⟨-a.re, -a.im⟩

/-- The product. -/
def mul (a b : Complex) : Complex :=
  ⟨a.re * b.re - a.im * b.im, a.re * b.im + a.im * b.re⟩

/-- Whether both parts are zero. -/
def isZero (a : Complex) : Bool := a.re == 0.0 && a.im == 0.0

/-- The quotient, scaled by the larger part of the divisor. -/
def div (a b : Complex) : Except Fault Complex :=
  if b.isZero then .error .divisionByZero
  else if b.re.abs >= b.im.abs then
    let ratio := b.im / b.re
    let denom := b.re + b.im * ratio
    .ok ⟨(a.re + a.im * ratio) / denom, (a.im - a.re * ratio) / denom⟩
  else
    let ratio := b.re / b.im
    let denom := b.re * ratio + b.im
    .ok ⟨(a.re * ratio + a.im) / denom, (a.im * ratio - a.re) / denom⟩

/-- The modulus, scaled so that squaring does not overflow. -/
def modulus (a : Complex) : Float :=
  let x := a.re.abs
  let y := a.im.abs
  let big := if x >= y then x else y
  let small := if x >= y then y else x
  if big == 0.0 || x.isInf || y.isInf then big
  else
    let r := small / big
    big * (1.0 + r * r).sqrt

/-- A power in polar form: its modulus and its angle. -/
def polarPow (a b : Complex) : Float × Float :=
  let size := a.modulus
  let angle := Float.atan2 a.im a.re
  let length := Float.pow size b.re
  let phase := angle * b.re
  if b.im == 0.0 then (length, phase)
  else (length * (-(angle * b.im)).exp, phase + b.im * size.log)

/-- A power by repeated squaring; the number of binary digits of `n` bounds the squarings. -/
def powNat (a : Complex) (n : Nat) : Complex :=
  go (n.log2 + 1) a n ⟨1.0, 0.0⟩
where
  go : Nat → Complex → Nat → Complex → Complex
    | 0, _, _, acc => acc
    | steps + 1, square, n, acc =>
        go steps (square.mul square) (n / 2) (if n % 2 = 1 then acc.mul square else acc)

/-- The whole number that a small real exponent is, if it is one. -/
def smallExponent? (b : Complex) : Option Int :=
  if b.im == 0.0 && b.re == b.re.floor && b.re.abs <= 100.0 then
    Binary.toInt? b.re
  else none

/-- Refuses an infinite result. -/
def bounded (c : Complex) : Except Fault Complex :=
  if c.re.isInf || c.im.isInf then .error .overflow else .ok c

/-- A power; zero has no negative and no complex powers, and an infinite result is refused. Small
whole exponents multiply, all others go by the polar form, where an infinite angle is no angle. -/
def pow (a b : Complex) : Except Fault Complex :=
  if b.isZero then .ok ⟨1.0, 0.0⟩
  else if a.isZero then
    if b.im != 0.0 || b.re < 0.0 then .error .divisionByZero else .ok ⟨0.0, 0.0⟩
  else match b.smallExponent? with
    | some n =>
        if 0 < n then bounded (a.powNat n.natAbs)
        else do
          let c ← (Complex.mk 1.0 0.0).div (a.powNat n.natAbs)
          bounded c
    | none =>
        let (length, phase) := a.polarPow b
        if phase.isInf then .error .divisionByZero
        else bounded ⟨length * phase.cos, length * phase.sin⟩

end Complex

end Equilibrium
