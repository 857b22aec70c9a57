/-
Doubles as exact binary fractions.

A finite double is a whole number of steps `2 ^ q`. `classify` reads that form off the bits and
`ofRatio` goes back: the double nearest to a ratio of naturals, halves to the even neighbour. All of
it is exact arithmetic on naturals, so nothing here rounds but the one rounding that is asked for.
-/

namespace Equilibrium.Binary

/-- A finite double: `significand * 2 ^ exponent`, with a sign. -/
structure Parts where
  negative : Bool
  significand : Nat
  exponent : Int
  deriving Repr, DecidableEq

/-- What the bits of a double stand for. -/
inductive Class
  | nan
  | infinite (negative : Bool)
  | finite (parts : Parts)
  deriving Repr, DecidableEq

/-- Reads the sign, the exponent field and the fraction off the bits. -/
def classifyBits (bits : Nat) : Class :=
  let negative := bits / Nat.pow 2 63 == 1
  let field := bits / Nat.pow 2 52 % Nat.pow 2 11
  let fraction := bits % Nat.pow 2 52
  -- the largest field marks what is not finite, the smallest has no leading one
  if field = 2047 then
    if fraction = 0 then .infinite negative else .nan
  else if field = 0 then .finite ⟨negative, fraction, -1074⟩
  else .finite ⟨negative, fraction + Nat.pow 2 52, Int.ofNat field - 1075⟩

/-- The exact meaning of a double. -/
def classify (x : Float) : Class := classifyBits x.toBits.toNat

/-- The whole number `n` with `2 ^ n ≤ num / den < 2 ^ (n + 1)`, for a positive ratio. -/
def logRatio (num den : Nat) : Int :=
  let guess := Int.ofNat num.log2 - Int.ofNat den.log2
  if num * Nat.pow 2 (-guess).toNat < den * Nat.pow 2 guess.toNat then guess - 1 else guess

/-- The whole number nearest to `num / den`, a half going to the even neighbour. -/
def roundHalfEven (num den : Nat) : Nat :=
  let quotient := num / den
  let twice := 2 * (num % den)
  if twice < den then quotient
  else if twice > den then quotient + 1
  else quotient + quotient % 2

/-- The bits of the double nearest to `num / den`; infinity from half a step above the largest. -/
def bitsOfRatio (num den : Nat) : Nat :=
  if num = 0 then 0
  else
    -- 53 binary digits, but no step smaller than the smallest double
    let exponent := max (logRatio num den - 52) (-1074)
    let significand :=
      roundHalfEven (num * Nat.pow 2 (-exponent).toNat) (den * Nat.pow 2 exponent.toNat)
    -- a carry out of the significand moves on to the next exponent by itself
    min ((exponent + 1074).toNat * Nat.pow 2 52 + significand) (2047 * Nat.pow 2 52)

/-- The double nearest to `num / den`, with the given sign. -/
def ofRatio (negative : Bool) (num den : Nat) : Float :=
  let bits := bitsOfRatio num den + (if negative then Nat.pow 2 63 else 0)
  Float.ofBits (UInt64.ofNat bits)

/-- The double nearest to a whole number; infinite if the number is too large. -/
def ofInt (n : Int) : Float := ofRatio (n < 0) n.natAbs 1

/-- Compares a finite double with a whole number, exactly. -/
def compareInt (p : Parts) (n : Int) : Ordering :=
  let m : Int := if p.negative then -(Int.ofNat p.significand) else Int.ofNat p.significand
  compare (m * Int.pow 2 p.exponent.toNat) (n * Int.pow 2 (-p.exponent).toNat)

/-- Whether a finite double is a whole number. -/
def Parts.isWhole (p : Parts) : Bool := p.significand % Nat.pow 2 (-p.exponent).toNat == 0

/-- Whether a finite double is an odd whole number. -/
def Parts.isOdd (p : Parts) : Bool :=
  p.isWhole &&
    (p.significand / Nat.pow 2 (-p.exponent).toNat) * Nat.pow 2 p.exponent.toNat % 2 == 1

/-- The whole number that a double stands for, if it is one. -/
def toInt? (x : Float) : Option Int :=
  match classify x with
  | .finite p =>
      if p.isWhole then
        let n := Int.ofNat
          (p.significand / Nat.pow 2 (-p.exponent).toNat * Nat.pow 2 p.exponent.toNat)
        some (if p.negative then -n else n)
      else none
  | _ => none

/-- Neither infinite nor not-a-number. -/
def isFinite (x : Float) : Bool :=
  match classify x with
  | .finite _ => true
  | _ => false

end Equilibrium.Binary
