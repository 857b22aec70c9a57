/-
Places in a YAML text.

A cursor is what is left of a text, together with the column at which it starts and whether only
blanks stand before it on its line. Blocks are told apart by the columns of their cursors; the end
of the text and the marks between documents end every block.
-/

namespace Equilibrium.Yaml

/-- A place in a text. -/
structure Cursor where
  rest : List Char
  column : Nat
  /-- Whether only blanks stand before this place on its line. -/
  isFresh : Bool

/-- Whether a character ends a line. -/
def isBreak (c : Char) : Bool :=
  let n := c.toNat
  n == 0x0A || n == 0x0D || n == 0x85 || n == 0x2028 || n == 0x2029

/-- Whether a text starts with a blank or is at its end. -/
def startsBlank : List Char → Bool
  | [] => true
  | c :: _ => c == ' ' || c == '\t' || isBreak c

/-- Whether a text starts with a mark between documents. -/
def startsMark : List Char → Bool
  | '-' :: '-' :: '-' :: rest => startsBlank rest
  | '.' :: '.' :: '.' :: rest => startsBlank rest
  | _ => false

namespace Cursor

/-- The start of a text. -/
def start (cs : List Char) : Cursor := ⟨cs, 0, true⟩

/-- Whether nothing is left. -/
def isDone (c : Cursor) : Bool := c.rest.isEmpty

/-- Whether a mark between documents stands here. -/
def isMark (c : Cursor) : Bool := c.column == 0 && startsMark c.rest

/-- The column, or a column before every other at the end of a document. -/
def depth (c : Cursor) : Int := if c.isDone || c.isMark then -1 else Int.ofNat c.column

/-- Goes past some characters of a token. -/
def advance (c : Cursor) (n : Nat) : Cursor := ⟨c.rest.drop n, c.column + n, false⟩

/-- Whether an entry of a block list starts here. -/
def isEntry (c : Cursor) : Bool :=
  match c.rest with
  | '-' :: rest => startsBlank rest
  | _ => false

/-- Goes past blanks, comments and line ends. -/
def skipFrom (inComment fresh : Bool) (column : Nat) : List Char → Cursor
  | [] => ⟨[], column, fresh⟩
  | c :: rest =>
      if isBreak c then skipFrom false true 0 rest
      else if inComment || c == ' ' then skipFrom inComment fresh (column + 1) rest
      else if c == '#' then skipFrom true fresh (column + 1) rest
      else ⟨c :: rest, column, fresh⟩

/-- Goes to the next token. -/
def skip (c : Cursor) : Cursor := skipFrom false c.isFresh c.column c.rest

/-- The place after a colon that follows on the same line, if there is one. Between brackets any
colon counts, elsewhere only one with a blank after it. -/
def afterColon? (inFlow : Bool) (c : Cursor) : Option Cursor :=
  let blanks := c.rest.takeWhile (· == ' ')
  match c.rest.drop blanks.length with
  | ':' :: rest =>
      if inFlow || startsBlank rest then some (c.advance (blanks.length + 1)) else none
  | _ => none

end Cursor

end Equilibrium.Yaml
