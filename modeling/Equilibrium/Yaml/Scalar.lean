/-
What a plain scalar of a YAML text stands for.

A plain scalar is nothing, a truth value, a whole number, a double, or else a text. Whole numbers
may be binary, octal or hexadecimal; a double needs a point, and a sign in its exponent.
-/
import Equilibrium.Value
import Equilibrium.Decimal.Numeral

namespace Equilibrium.Yaml

/-- The words that stand for nothing or for a truth value. -/
def words : List (String × Value) :=
  (["~", "null", "Null", "NULL"].map fun w => (w, Value.none)) ++
    (["yes", "Yes", "YES", "true", "True", "TRUE", "on", "On", "ON"].map
      fun w => (w, Value.bool true)) ++
    (["no", "No", "NO", "false", "False", "FALSE", "off", "Off", "OFF"].map
      fun w => (w, Value.bool false))

/-- The value of a digit in a base up to sixteen. -/
def digit? (base : Nat) (c : Char) : Option Nat :=
  let n := c.toNat
  let d :=
    if 0x30 ≤ n && n ≤ 0x39 then n - 0x30
    else if 0x61 ≤ n && n ≤ 0x66 then n - 0x57
    else if 0x41 ≤ n && n ≤ 0x46 then n - 0x37
    else 16
  if d < base then some d else none

/-- Digits in a base, among which underscores may stand. -/
def digits? (base : Nat) (cs : List Char) : Option Nat :=
  (cs.filter (· ≠ '_')).foldlM (fun n c => (digit? base c).map (base * n + ·)) 0

/-- Reads a whole number without a sign. -/
def natural? : List Char → Option Nat
  | ['0'] => some 0
  | '0' :: 'b' :: c :: rest => digits? 2 (c :: rest)
  | '0' :: 'x' :: c :: rest => digits? 16 (c :: rest)
  | '0' :: rest => digits? 8 rest
  | c :: rest => if c.isDigit then digits? 10 (c :: rest) else none
  | [] => none

/-- Reads a whole number. -/
def whole? (cs : List Char) : Option Int :=
  let (negative, body) := Decimal.splitSign cs
  (natural? body).map fun n => if negative then -Int.ofNat n else Int.ofNat n

/-- Whether an exponent is missing, or written with a sign. -/
def hasSignedExponent : List Char → Bool
  | [] => true
  | e :: sign :: digits =>
      (e == 'e' || e == 'E') && (sign == '+' || sign == '-') && !digits.isEmpty &&
        digits.all Char.isDigit
  | _ => false

/-- Reads a double with a point. A number that starts with the point has no sign. -/
def pointed? (signed negative : Bool) (body : List Char) : Option Float :=
  let isPart (c : Char) : Bool := c.isDigit || c == '_'
  match body.dropWhile isPart with
  | '.' :: tail =>
      let starts := match body with
        | c :: _ => c.isDigit
        | [] => false
      let bare := !signed && (body.head? == some '.') && (tail.head?.any Char.isDigit)
      if (starts || bare) && hasSignedExponent (tail.dropWhile isPart) then
        Decimal.readUnsigned negative (body.filter (· ≠ '_'))
      else none
  | _ => none

/-- Reads an infinity or what is not a number. -/
def special? (signed negative : Bool) (body : List Char) : Option Float :=
  let name := String.ofList body
  if [".inf", ".Inf", ".INF"].contains name then Decimal.readNamed negative ['i', 'n', 'f']
  else if !signed && [".nan", ".NaN", ".NAN"].contains name then
    Decimal.readNamed false ['n', 'a', 'n']
  else none

/-- Reads a double. -/
def real? (cs : List Char) : Option Float :=
  let (negative, body) := Decimal.splitSign cs
  let signed := body.length < cs.length
  (special? signed negative body).orElse fun _ => pointed? signed negative body

/-- What a plain scalar stands for. -/
def resolve (s : String) : Value :=
  match words.lookup s with
  | some v => v
  | none => match whole? s.toList with
    | some n => .number (.int n)
    | none => match real? s.toList with
      | some x => .number (.real x)
      | none => .text s

end Equilibrium.Yaml
