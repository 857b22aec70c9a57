/-
Blanks, and names as they are looked up.

Names of senses, levels and categories are accepted whatever their case and with blanks around them.
`normalize` is the form in which they are looked up.
-/

namespace Equilibrium.Text

/-- Blanks are the characters of Unicode's white space together with the four information
separators `U+001C` to `U+001F`. -/
def isBlank (c : Char) : Bool :=
  let n := c.toNat
  (9 ≤ n && n ≤ 13) || (0x1C ≤ n && n ≤ 0x20) || n == 0x85 || n == 0xA0 || n == 0x1680 ||
    (0x2000 ≤ n && n ≤ 0x200A) || n == 0x2028 || n == 0x2029 || n == 0x202F || n == 0x205F ||
    n == 0x3000

/-- Drops the blanks at both ends. -/
def trimList (cs : List Char) : List Char :=
  ((cs.dropWhile isBlank).reverse.dropWhile isBlank).reverse

/-- Drops the blanks at both ends. -/
def trim (s : String) : String := String.ofList (trimList s.toList)

/-- Lower case for the letters `A` to `Z` and for the Kelvin sign, the only character outside ASCII
whose lower case is an ASCII letter. No other letter can occur in a name, so it stays. -/
def foldCase (c : Char) : Char :=
  if c.toNat == 0x212A then 'k' else c.toLower

/-- The form in which a name is looked up: blanks around it dropped, letters in lower case. -/
def normalize (s : String) : String :=
  String.ofList ((trimList s.toList).map foldCase)

end Equilibrium.Text
