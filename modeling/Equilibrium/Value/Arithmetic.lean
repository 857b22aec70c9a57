/-
Arithmetic on plain values.

Numbers and truth values combine as numbers. Texts and lists can be joined, and repeated a whole
number of times; every other combination is ill-typed.

Main statements:
* `Value.pow_number` - on numbers the power is that of `Number`.
-/
import Equilibrium.Value

namespace Equilibrium.Value

/-- The whole number that a value counts as, for repetition. -/
def count? : Value → Option Int
  | bool b => some (if b then 1 else 0)
  | number (.int n) => some n
  | _ => Option.none

/-- The greatest number of characters or items that a repetition may have. -/
def repetitionLimit : Nat := Nat.pow 2 40

/-- Items repeated `n` times; not at all for a negative count. A count beyond 64 bits and a result
beyond all limits are refused. -/
def repeatItems {α : Type} (items : List α) (n : Int) : Except Fault (List α) :=
  if n < -0x8000000000000000 || 0x8000000000000000 ≤ n ||
      repetitionLimit < items.length * n.toNat then .error .overflow
  else if items.isEmpty then .ok []
  else .ok (List.replicate n.toNat items).flatten

/-- A text written `n` times. -/
def repeatText (s : String) (n : Int) : Except Fault Value :=
  (repeatItems s.toList n).map fun cs => text (String.ofList cs)

/-- A list written `n` times. -/
def repeatList (items : List Value) (n : Int) : Except Fault Value :=
  (repeatItems items n).map list

/-- Applies an operation on numbers to values that count as numbers. -/
def onNumbers (op : Number → Number → Except Fault Number) (a b : Value) : Except Fault Value :=
  match a.number?, b.number? with
  | some m, some n => (op m n).map number
  | _, _ => .error .illTyped

/-- The sum of two numbers, or two texts or lists joined. -/
def add : Value → Value → Except Fault Value
  | text a, text b => .ok (text (a ++ b))
  | list a, list b => .ok (list (a ++ b))
  | a, b => onNumbers Number.add a b

/-- The difference of two numbers. -/
def sub : Value → Value → Except Fault Value := onNumbers Number.sub

/-- The product of two numbers, or a text or list repeated; the count may stand on either side. -/
def mul (a b : Value) : Except Fault Value :=
  match a, b.count?, a.count?, b with
  | text s, some n, _, _ => repeatText s n
  | list items, some n, _, _ => repeatList items n
  | _, _, some n, text s => repeatText s n
  | _, _, some n, list items => repeatList items n
  | _, _, _, _ => onNumbers Number.mul a b

/-- The quotient of two numbers. -/
def div : Value → Value → Except Fault Value := onNumbers Number.div

/-- The power of a number. -/
def pow : Value → Value → Except Fault Value := onNumbers Number.pow

/-- The negative of a number. -/
def neg (a : Value) : Except Fault Value :=
  match a.number? with
  | some n => .ok (number n.neg)
  | Option.none => .error .illTyped

@[simp] theorem pow_number (m n : Number) :
    pow (number m) (number n) = (Number.pow m n).map number := rfl

end Equilibrium.Value
