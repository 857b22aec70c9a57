/-
Scalars as they are written in a YAML text.

A scalar is plain, or stands between single or double quotes. It may go over several lines: then
the blanks around a line end are dropped, a single line end becomes a blank, and of several line
ends all but the first are kept.
-/
import Equilibrium.Yaml.Cursor

namespace Equilibrium.Yaml

/-- What was passed since the last character of a scalar: blanks, the last one first, and line
ends. -/
structure Gap where
  blanks : List Char := []
  breaks : Nat := 0
  /-- Whether an escaped line end came first, which stands for nothing. -/
  isJoined : Bool := false

namespace Gap

/-- Whether nothing was passed. -/
def isEmpty (g : Gap) : Bool := g.blanks.isEmpty && g.breaks == 0

/-- Whether a line end was passed. -/
def isFolded (g : Gap) : Bool := g.breaks > 0 || g.isJoined

/-- Passes a blank; after a line end it stands for nothing. -/
def addBlank (g : Gap) (c : Char) : Gap :=
  if g.isFolded then g else { g with blanks := c :: g.blanks }

/-- Passes a line end. -/
def addBreak (g : Gap) : Gap := { g with blanks := [], breaks := g.breaks + 1 }

/-- The characters that a gap stands for. -/
def text (g : Gap) : List Char :=
  if g.isJoined then List.replicate g.breaks '\n'
  else if g.breaks == 0 then g.blanks.reverse
  else if g.breaks == 1 then [' ']
  else List.replicate (g.breaks - 1) '\n'

end Gap

/-- A scalar that was read: its text, the place after it, and whether it stands on one line. -/
structure Token where
  text : String
  after : Cursor
  isOneLine : Bool

/-- What was read of a scalar: its characters, the last one first, and whether a line end was among
them. -/
structure Draft where
  chars : List Char := []
  isFolded : Bool := false

/-- Puts a gap and more characters at the end. -/
def Draft.add (d : Draft) (g : Gap) (cs : List Char) : Draft :=
  ⟨cs.reverse ++ g.text.reverse ++ d.chars, d.isFolded || g.isFolded⟩

/-- The token of a finished scalar. -/
def Draft.toToken (d : Draft) (after : Cursor) : Token :=
  ⟨String.ofList d.chars.reverse, after, !d.isFolded⟩

/-! ### Plain scalars -/

/-- The characters that end a plain scalar between brackets. -/
def flowMarks : List Char := [',', '?', '[', ']', '\x7b', '\x7d']

/-- Whether a plain scalar ends before a character. -/
def endsPlain (inFlow : Bool) (c : Char) (rest : List Char) : Bool :=
  c == '\t' || (inFlow && flowMarks.contains c) ||
    (c == ':' && (startsBlank rest ||
      (inFlow && (rest.head?.any fun n => n != '?' && flowMarks.contains n))))

/-- Whether a plain scalar can start with a character. -/
def startsPlain (inFlow : Bool) : List Char → Bool
  | [] => false
  | c :: rest =>
      if c == '-' || (!inFlow && (c == '?' || c == ':')) then !startsBlank rest
      else !(startsBlank [c] || ("?:,[]\x7b\x7d#&*!|>'\"%@`".toList.contains c))

/-- Reads on in a plain scalar; `last` is the place after its last character so far. A line that
starts before the column `least` does not belong to it. -/
def plainFrom (inFlow : Bool) (least : Int) (draft : Draft) (gap : Gap) (last : Cursor)
    (column : Nat) : List Char → Token
  | [] => draft.toToken last
  | c :: rest =>
      if isBreak c then plainFrom inFlow least draft gap.addBreak last 0 rest
      else if c == ' ' then plainFrom inFlow least draft (gap.addBlank c) last (column + 1) rest
      else if (!gap.isEmpty && c == '#') || endsPlain inFlow c rest then draft.toToken last
      -- on a later line a mark or a line further left ends the scalar
      else if gap.isFolded &&
          ((column == 0 && startsMark (c :: rest)) || (!inFlow && Int.ofNat column < least)) then
        draft.toToken last
      else
        plainFrom inFlow least (draft.add gap [c]) {} ⟨rest, column + 1, false⟩ (column + 1) rest

/-- Reads a plain scalar. -/
def plain (inFlow : Bool) (least : Int) (c : Cursor) : Token :=
  plainFrom inFlow least {} {} c c.column c.rest

/-! ### Quoted scalars -/

/-- The escapes between double quotes that stand for one character. -/
def escapes : List (Char × Nat) :=
  [('0', 0x00), ('a', 0x07), ('b', 0x08), ('t', 0x09), ('\t', 0x09), ('n', 0x0A), ('v', 0x0B),
    ('f', 0x0C), ('r', 0x0D), ('e', 0x1B), (' ', 0x20), ('"', 0x22), ('\\', 0x5C), ('/', 0x2F),
    ('N', 0x85), ('_', 0xA0), ('L', 0x2028), ('P', 0x2029)]

/-- The escapes that are followed by a code, and its number of digits. -/
def codes : List (Char × Nat) := [('x', 2), ('u', 4), ('U', 8)]

/-- Where a reader stands between quotes. -/
inductive Position
  | inside
  /-- After a quote that may be doubled. -/
  | afterQuote (after : Cursor)
  | afterBackslash
  | inCode (left value : Nat)

/-- The value of a hexadecimal digit. -/
def hexDigit? (c : Char) : Option Nat :=
  let n := c.toNat
  if 0x30 ≤ n && n ≤ 0x39 then some (n - 0x30)
  else if 0x61 ≤ n && n ≤ 0x66 then some (n - 0x57)
  else if 0x41 ≤ n && n ≤ 0x46 then some (n - 0x37)
  else none

/-- Reads on between quotes. -/
def quotedFrom (quote : Char) (draft : Draft) (gap : Gap) (position : Position)
    (column : Nat) : List Char → Option Token
  | [] => match position with
    | .afterQuote after => some ((draft.add gap []).toToken after)
    | _ => none
  | c :: rest =>
      match position with
      | .afterQuote after =>
          if c == quote then quotedFrom quote (draft.add gap [c]) {} .inside (column + 1) rest
          else some ((draft.add gap []).toToken after)
      | .inCode left value => match hexDigit? c with
        | none => none
        | some d =>
            let value := 16 * value + d
            if left > 1 then quotedFrom quote draft gap (.inCode (left - 1) value) (column + 1) rest
            else
              quotedFrom quote (draft.add gap [Char.ofNat value]) {} .inside (column + 1) rest
      | .afterBackslash =>
          if isBreak c then
            let draft := draft.add gap []
            quotedFrom quote { draft with isFolded := true } ⟨[], 0, true⟩ .inside 0 rest
          else match escapes.lookup c, codes.lookup c with
            | some code, _ =>
                quotedFrom quote (draft.add gap [Char.ofNat code]) {} .inside (column + 1) rest
            | none, some width => quotedFrom quote draft gap (.inCode width 0) (column + 1) rest
            | none, none => none
      | .inside =>
          if isBreak c then quotedFrom quote draft gap.addBreak .inside 0 rest
          else if gap.isFolded && column == 0 && startsMark (c :: rest) then none
          else if c == ' ' || c == '\t' then
            quotedFrom quote draft (gap.addBlank c) .inside (column + 1) rest
          else if c == quote then
            let after : Cursor := ⟨rest, column + 1, false⟩
            if quote == '\'' then quotedFrom quote draft gap (.afterQuote after) (column + 1) rest
            else some ((draft.add gap []).toToken after)
          else if c == '\\' && quote == '"' then
            quotedFrom quote draft gap .afterBackslash (column + 1) rest
          else quotedFrom quote (draft.add gap [c]) {} .inside (column + 1) rest

/-- Reads a quoted scalar. -/
def quoted? (c : Cursor) : Option Token :=
  match c.rest with
  | '\'' :: rest => quotedFrom '\'' {} {} .inside (c.column + 1) rest
  | '"' :: rest => quotedFrom '"' {} {} .inside (c.column + 1) rest
  | _ => none

end Equilibrium.Yaml
