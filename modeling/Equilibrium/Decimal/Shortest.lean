/-
The shortest decimal that reads back as a given double.

A double stands for every real that rounds to it. Among the decimals in that interval the ones with
the fewest digits are wanted, and of those the nearest to the double's own value. On the grid of
decimals with `k` digits only the two neighbours of the value can qualify, so the first `k` for
which one of them lies in the interval decides.
-/
import Equilibrium.Decimal.Binary

namespace Equilibrium

/-- The decimal `digits * 10 ^ exponent`. -/
structure Decimal where
  digits : Nat
  exponent : Int
  deriving Repr, DecidableEq

namespace Decimal

open Equilibrium.Binary

/-- The number of decimal digits of a positive natural. -/
def digitCount (n : Nat) : Nat := (Nat.toDigits 10 n).length

/-- The whole number `p` with `10 ^ (p - 1) ≤ num / den < 10 ^ p`, for a positive ratio. -/
def magnitude (num den : Nat) : Int :=
  if den ≤ num then Int.ofNat (digitCount (num / den))
  else
    let n := digitCount (den / num)
    if den = num * Nat.pow 10 (n - 1) then 2 - Int.ofNat n else 1 - Int.ofNat n

/-- The reals that round to a positive double, as ratios over a common denominator. -/
structure Interval where
  low : Nat
  value : Nat
  high : Nat
  den : Nat
  closed : Bool
  deriving Repr

/-- Half a step to either side, but a quarter step below a power of two; an even significand wins
ties, so its ends belong to it. -/
def Interval.around (significand : Nat) (exponent : Int) : Interval :=
  let scale := Nat.pow 2 (exponent - 2).toNat
  let den := Nat.pow 2 (2 - exponent).toNat
  let below := if significand = Nat.pow 2 52 ∧ exponent > -1074 then 1 else 2
  { low := (4 * significand - below) * scale
    value := 4 * significand * scale
    high := (4 * significand + 2) * scale
    den := den
    closed := significand % 2 == 0 }

/-- Whether `digits * up / down` lies in the interval. -/
def Interval.holds (i : Interval) (digits up down : Nat) : Bool :=
  let x := digits * up * i.den
  if i.closed then i.low * down ≤ x && x ≤ i.high * down
  else i.low * down < x && x < i.high * down

/-- The better of the two neighbours of the value on the grid of `k` digits, if one is inside. -/
def Interval.onGrid? (i : Interval) (p : Int) (k : Nat) : Option Decimal :=
  let exponent := p - Int.ofNat k
  let up := Nat.pow 10 exponent.toNat
  let down := Nat.pow 10 (-exponent).toNat
  let floor := i.value * down / (i.den * up)
  match i.holds floor up down, i.holds (floor + 1) up down with
  | false, false => none
  | true, false => some ⟨floor, exponent⟩
  | false, true => some ⟨floor + 1, exponent⟩
  | true, true =>
      -- both qualify: the nearer one, and at the middle the one with an even last digit
      let twice := 2 * i.value * down
      let middle := (2 * floor + 1) * i.den * up
      if twice < middle then some ⟨floor, exponent⟩
      else if middle < twice then some ⟨floor + 1, exponent⟩
      else some ⟨floor + floor % 2, exponent⟩

/-- The shortest decimal of a positive double; seventeen digits always suffice. -/
def shortest (significand : Nat) (exponent : Int) : Decimal :=
  let i := Interval.around significand exponent
  let p := magnitude i.value i.den
  ((List.range 17).findSome? fun k => i.onGrid? p (k + 1)).getD ⟨i.value / i.den, 0⟩

/-- Where positional writing ends, and how the exponent is written otherwise. -/
structure Style where
  leastPositional : Int
  greatestPositional : Int
  exponentWidth : Nat
  infinity : String
  notANumber : String

/-- Figures are positional from `0.0001` up to sixteen digits before the point, always show a point
or an exponent, and write exponents with a sign and two digits. -/
def figures : Style := ⟨-4, 15, 2, "inf", "nan"⟩

/-- Pads a numeral with zeros on the left. -/
def padLeft (width : Nat) (s : String) : String :=
  String.ofList (List.replicate (width - s.length) '0') ++ s

/-- Writes a positive decimal whose first digit stands at `10 ^ lead`. -/
def Style.write (style : Style) (d : Decimal) : String :=
  let digits := (Nat.toDigits 10 d.digits)
  let kept := (digits.reverse.dropWhile (· == '0')).reverse
  let lead := d.exponent + Int.ofNat digits.length - 1
  if style.leastPositional ≤ lead && lead ≤ style.greatestPositional then
    -- below one the digits follow the zeros after the point
    if lead < 0 then
      "0." ++ String.ofList (List.replicate (-lead - 1).toNat '0') ++ String.ofList kept
    else
      let n := lead.toNat + 1
      let whole := kept.take n ++ List.replicate (n - kept.length) '0'
      let fraction := kept.drop n
      String.ofList whole ++ "." ++ (if fraction.isEmpty then "0" else String.ofList fraction)
  else
    let mantissa := match kept with
      | [] => "0"
      | [c] => String.singleton c
      | c :: rest => String.singleton c ++ "." ++ String.ofList rest
    let sign := if lead < 0 then "-" else "+"
    mantissa ++ "e" ++ sign ++ padLeft style.exponentWidth (toString lead.natAbs)

/-- The text of a double: the shortest decimal that reads back. -/
def Style.text (style : Style) (x : Float) : String :=
  match classify x with
  | .nan => style.notANumber
  | .infinite negative => (if negative then "-" else "") ++ style.infinity
  | .finite p =>
      (if p.negative then "-" else "") ++
        (if p.significand = 0 then "0.0" else style.write (shortest p.significand p.exponent))

end Decimal

end Equilibrium
