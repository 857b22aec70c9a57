/-
Reading numerals.

A numeral may have blanks around it, a sign, and underscores between digits; it is a decimal with an
optional fraction and exponent, or the name of an infinity or of not-a-number. The value read is the
double nearest to the decimal that is written.
-/
import Equilibrium.Decimal.Shortest
import Equilibrium.Text.Blank

namespace Equilibrium.Decimal

open Equilibrium.Binary

/-- The value of a list of decimal digits. -/
def digitsValue (cs : List Char) : Nat :=
  cs.foldl (fun n c => 10 * n + (c.toNat - '0'.toNat)) 0

/-- Drops the underscores that stand between two digits; any other underscore is refused. -/
def withoutUnderscores (previous : Char) : List Char → Option (List Char)
  | [] => some []
  | '_' :: rest =>
      match rest with
      | next :: _ =>
          if previous.isDigit && next.isDigit then withoutUnderscores '_' rest else none
      | [] => none
  | c :: rest => (withoutUnderscores c rest).map (c :: ·)

/-- Splits a sign off; `true` stands for minus. -/
def splitSign : List Char → Bool × List Char
  | '-' :: rest => (true, rest)
  | '+' :: rest => (false, rest)
  | cs => (false, cs)

/-- Reads an exponent: a letter `e`, a sign and digits. Nothing at all means zero. -/
def readExponent : List Char → Option Int
  | [] => some 0
  | c :: rest =>
      let (negative, digits) := splitSign rest
      if (c == 'e' || c == 'E') && !digits.isEmpty && digits.all Char.isDigit then
        let n := Int.ofNat (digitsValue digits)
        some (if negative then -n else n)
      else none

/-- The double nearest to `digits * 10 ^ exponent`. Beyond four hundred places only zero and
infinity are near, so the power is not formed there. -/
def nearest (negative : Bool) (digits : Nat) (exponent : Int) : Float :=
  let size := Int.ofNat (digitCount digits) + exponent
  if digits = 0 || size < -400 then ofRatio negative 0 1
  else if size > 400 then ofRatio negative (Nat.pow 2 1100) 1
  else ofRatio negative (digits * Nat.pow 10 exponent.toNat) (Nat.pow 10 (-exponent).toNat)

/-- Reads an unsigned decimal. -/
def readUnsigned (negative : Bool) (cs : List Char) : Option Float :=
  let whole := cs.takeWhile Char.isDigit
  let afterWhole := cs.dropWhile Char.isDigit
  let (fraction, rest) := match afterWhole with
    | '.' :: tail => (tail.takeWhile Char.isDigit, tail.dropWhile Char.isDigit)
    | tail => ([], tail)
  if whole.isEmpty && fraction.isEmpty then none
  else (readExponent rest).map fun e =>
    nearest negative (digitsValue (whole ++ fraction)) (e - Int.ofNat fraction.length)

/-- The named values: infinities and not-a-number, in any case. -/
def readNamed (negative : Bool) (cs : List Char) : Option Float :=
  let name := String.ofList (cs.map Char.toLower)
  if name == "inf" || name == "infinity" then some (ofRatio negative (Nat.pow 2 1100) 1)
  else if name == "nan" then some (0.0 / 0.0)
  else none

/-- Reads a numeral as a double. -/
def toFloat? (s : String) : Option Float := do
  let cs ← withoutUnderscores ' ' (Text.trimList s.toList)
  let (negative, body) := splitSign cs
  (readNamed negative body).orElse fun _ => readUnsigned negative body

/-- Reads a whole number; a point may follow it if only zeros follow the point. -/
def toInt? (s : String) : Option Int := do
  let cs ← withoutUnderscores ' ' (Text.trimList s.toList)
  let (negative, body) := splitSign cs
  let whole := body.takeWhile Char.isDigit
  let fits := match body.dropWhile Char.isDigit with
    | [] => true
    | c :: zeros => c == '.' && zeros.all (· == '0')
  if whole.isEmpty || !fits then none
  else
    let n := Int.ofNat (digitsValue whole)
    some (if negative then -n else n)

end Equilibrium.Decimal
