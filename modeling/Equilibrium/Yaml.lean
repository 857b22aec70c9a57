/-
Reading YAML texts.

The texts hold one document of mappings and lists, in blocks or between brackets, and of plain and
quoted scalars. A block mapping or list is made of the entries that start in one column; what
belongs to an entry starts further to the right, but a list may stand in the column of the mapping
whose entry it is. Among equal keys the last one counts. Anchors, tags, block scalars and explicit
keys are no part of the texts and are refused.

Reading goes down one level, or past one entry, at each step, so the length of the text bounds it.
-/
import Equilibrium.Yaml.Scalar
import Equilibrium.Yaml.Token

namespace Equilibrium.Yaml

/-- A value that was read, the place after it, and whether it can be the key of an entry. -/
structure Part where
  value : Value
  after : Cursor
  isKey : Bool

/-- A value as a key; lists and mappings are none. -/
def keyOf? : Value → Option Key
  | .none => some .none
  | .bool b => some (.bool b)
  | .number n => some (.number n)
  | .text s => some (.text s)
  | .list _ => none
  | .map _ => none

/-- The part that a token is. -/
def Token.toPart (t : Token) (read : String → Value) : Part := ⟨read t.text, t.after, t.isOneLine⟩

/-- Reads a scalar. -/
def scalar? (inFlow : Bool) (least : Int) (c : Cursor) : Option Part :=
  match c.rest with
  | '\'' :: _ => (quoted? c).map (·.toPart .text)
  | '"' :: _ => (quoted? c).map (·.toPart .text)
  | rest =>
      if startsPlain inFlow rest then some ((plain inFlow least c).toPart resolve) else none

mutual

/-- Reads a value between brackets, or a scalar. -/
def flow (fuel : Nat) (c : Cursor) : Option Part :=
  match fuel with
  | 0 => none
  | fuel + 1 =>
      if c.isMark then none
      else match c.rest with
        | '[' :: _ => flowList fuel [] (c.advance 1)
        | '\x7b' :: _ => flowMap fuel [] (c.advance 1)
        | _ => scalar? true 0 c

/-- Reads what follows the colon of an entry between brackets. -/
def flowValue (fuel : Nat) (c : Cursor) : Option Part :=
  match fuel with
  | 0 => none
  | fuel + 1 =>
      let next := c.skip
      match next.rest with
      | ',' :: _ => some ⟨.none, next, false⟩
      | ']' :: _ => some ⟨.none, next, false⟩
      | '\x7d' :: _ => some ⟨.none, next, false⟩
      | _ => flow fuel next

/-- Reads the items of a list between brackets, and the closing bracket. -/
def flowList (fuel : Nat) (items : List Value) (c : Cursor) : Option Part :=
  match fuel with
  | 0 => none
  | fuel + 1 =>
      let c := c.skip
      match c.rest with
      | ']' :: _ => some ⟨.list items.reverse, c.advance 1, false⟩
      | _ => do
          let item ← flow fuel c
          let (value, after) ← match item.after.afterColon? true with
            | none => some (item.value, item.after)
            -- a single entry without brackets of its own is a mapping
            | some colon =>
                if item.isKey then do
                  let key ← keyOf? item.value
                  let entry ← flowValue fuel colon
                  some (Value.ofEntries [(key, entry.value)], entry.after)
                else none
          let next := after.skip
          match next.rest with
          | ',' :: _ => flowList fuel (value :: items) (next.advance 1)
          | ']' :: _ => some ⟨.list (value :: items).reverse, next.advance 1, false⟩
          | _ => none

/-- Reads the entries of a mapping between brackets, and the closing bracket. -/
def flowMap (fuel : Nat) (entries : List (Key × Value)) (c : Cursor) : Option Part :=
  match fuel with
  | 0 => none
  | fuel + 1 =>
      let c := c.skip
      match c.rest with
      | '\x7d' :: _ => some ⟨Value.ofEntries entries.reverse, c.advance 1, false⟩
      | _ => do
          let item ← flow fuel c
          let key ← keyOf? item.value
          let (value, after) ← match item.after.afterColon? true with
            | none => some (Value.none, item.after)
            | some colon =>
                if item.isKey then (flowValue fuel colon).map fun part => (part.value, part.after)
                else none
          let next := after.skip
          match next.rest with
          | ',' :: _ => flowMap fuel ((key, value) :: entries) (next.advance 1)
          | '\x7d' :: _ =>
              some ⟨Value.ofEntries ((key, value) :: entries).reverse, next.advance 1, false⟩
          | _ => none

end

/-- Reads a value that is no block. -/
def atom (fuel : Nat) (least : Int) (c : Cursor) : Option Part :=
  if c.isMark then none
  else match c.rest with
    | '[' :: _ => flow fuel c
    | '\x7b' :: _ => flow fuel c
    | _ => scalar? false least c

mutual

/-- Reads a value below a column. Blocks start only where `opens` allows it. -/
def node (fuel : Nat) (parent : Int) (opens : Bool) (c : Cursor) : Option (Value × Cursor) :=
  match fuel with
  | 0 => none
  | fuel + 1 =>
      if c.isMark then none
      else if c.isEntry then
        if opens then blockList fuel c.column [] c else none
      else do
        let part ← atom fuel (parent + 1) c
        match part.after.afterColon? false with
        | none => some (part.value, part.after)
        | some _ => if opens then blockMap fuel c.column [] c else none

/-- Reads what belongs to an entry of a block mapping in some column. -/
def mapValue (fuel : Nat) (column : Nat) (c : Cursor) : Option (Value × Cursor) :=
  match fuel with
  | 0 => none
  | fuel + 1 =>
      let next := c.skip
      if next.isFresh then
        -- on a line of its own the value starts further right, unless it is a list
        if Int.ofNat column < next.depth then node fuel (Int.ofNat column) true next
        else if next.depth == Int.ofNat column && next.isEntry then
          blockList fuel column [] next
        else some (.none, next)
      else if next.isDone then some (.none, next)
      else node fuel (Int.ofNat column) false next

/-- Reads the entries of a block mapping in some column. -/
def blockMap (fuel : Nat) (column : Nat) (entries : List (Key × Value)) (c : Cursor) :
    Option (Value × Cursor) :=
  match fuel with
  | 0 => none
  | fuel + 1 => do
      let part ← atom fuel (Int.ofNat column + 1) c
      let key ← keyOf? part.value
      let colon ← part.after.afterColon? false
      if part.isKey then do
        let (value, after) ← mapValue fuel column colon
        let next := after.skip
        -- the next entry starts in the same column; further left the mapping is over
        let entries := (key, value) :: entries
        if next.depth < Int.ofNat column then
          some (Value.ofEntries entries.reverse, next)
        else if next.depth == Int.ofNat column && next.isFresh then
          blockMap fuel column entries next
        else none
      else none

/-- Reads what belongs to an entry of a block list in some column. -/
def listValue (fuel : Nat) (column : Nat) (c : Cursor) : Option (Value × Cursor) :=
  match fuel with
  | 0 => none
  | fuel + 1 =>
      let next := c.skip
      if next.isDone || (next.isFresh && next.depth ≤ Int.ofNat column) then some (.none, next)
      else node fuel (Int.ofNat column) true next

/-- Reads the entries of a block list in some column. -/
def blockList (fuel : Nat) (column : Nat) (items : List Value) (c : Cursor) :
    Option (Value × Cursor) :=
  match fuel with
  | 0 => none
  | fuel + 1 => do
      let (value, after) ← listValue fuel column (c.advance 1)
      let next := after.skip
      let items := value :: items
      if next.isFresh && next.depth == Int.ofNat column && next.isEntry then
        blockList fuel column items next
      else if next.depth < Int.ofNat column || (next.isFresh && next.depth == Int.ofNat column) then
        some (.list items.reverse, next)
      else none

end

/-- Whether a character may stand in a text at all. -/
def isAllowed (c : Char) : Bool :=
  let n := c.toNat
  n == 0x09 || n == 0x0A || n == 0x0D || (0x20 ≤ n && n ≤ 0x7E) || n == 0x85 ||
    (0xA0 ≤ n && n ≤ 0xD7FF) || (0xE000 ≤ n && n ≤ 0xFFFD) || 0x10000 ≤ n

/-- Whether nothing but the end of a document is left. -/
def endsDocument (c : Cursor) : Bool :=
  let next := c.skip
  if next.isDone then true
  else match next.rest with
    | '.' :: _ => next.isMark && (next.advance 3).skip.isDone
    | _ => false

/-- Reads the content of a document. -/
def content (fuel : Nat) (c : Cursor) : Option (Value × Cursor) :=
  let next := c.skip
  match next.rest with
  | [] => some (.none, next)
  | '-' :: _ =>
      if next.isMark then
        let body := (next.advance 3).skip
        if body.isDone || body.isMark then some (.none, body)
        else node fuel (-1) body.isFresh body
      else node fuel (-1) true next
  | _ => node fuel (-1) true next

/-- Line ends in one spelling: a carriage return before a line feed is dropped. -/
def unifyBreaks : List Char → List Char
  | '\r' :: '\n' :: rest => '\n' :: unifyBreaks rest
  | c :: rest => (if c == '\r' then '\n' else c) :: unifyBreaks rest
  | [] => []

/-- The value that a text holds. -/
def read? (s : String) : Option Value := do
  let cs := unifyBreaks s.toList
  if cs.all isAllowed then do
    let body := match cs with
      | '\uFEFF' :: rest => rest
      | cs => cs
    -- every character is looked at by a few readers at most before it is passed
    let (value, after) ← content (4 * body.length + 16) (Cursor.start body)
    if endsDocument after then some value else none
  else none

end Equilibrium.Yaml
