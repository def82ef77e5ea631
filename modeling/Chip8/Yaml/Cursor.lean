/-!
# Places in a text

The settings file is read as a list of characters with the line and column of
its head. Line breaks are brought to one form first (`normalizeBreaks`), so
that one character ends a line.
-/

namespace Chip8.Yaml

/-! ## Characters -/

/-- Space or tab. -/
def isBlank (c : Char) : Bool := c == ' ' || c == '\t'

/-- A character that ends a line. -/
def isBreak (c : Char) : Bool := c == '\n' || c == '\u2028' || c == '\u2029'

/-- Space, tab or the end of a line. -/
def isGap (c : Char) : Bool := isBlank c || isBreak c

/-- Whether nothing follows on the line but possibly blanks: the head is a blank, a break,
or the end of the text. -/
def atGap : List Char → Bool
  | [] => true
  | c :: _ => isGap c

/-- A character that may stand in a text at all. -/
def isAllowed (c : Char) : Bool :=
  c == '\t' || c == '\n' || c == '\u0085' ||
  (' ' ≤ c && c ≤ '~') || ('\u00A0' ≤ c && c ≤ '\uD7FF') ||
  ('\uE000' ≤ c && c ≤ '\uFFFD') || 0x10000 ≤ c.toNat

/-- The same text with every line ended by a line feed alone. -/
def normalizeBreaks : List Char → List Char
  | [] => []
  | '\r' :: '\n' :: rest => '\n' :: normalizeBreaks rest
  | '\r' :: rest => '\n' :: normalizeBreaks rest
  | '\u0085' :: rest => '\n' :: normalizeBreaks rest
  | c :: rest => c :: normalizeBreaks rest

/-! ## Places -/

/-- Where a character stands. -/
structure Place where
  line : Nat := 0
  column : Nat := 0
  /-- How many characters come before. -/
  index : Nat := 0
  deriving DecidableEq, Repr

/-- The place after a character. -/
def Place.step (p : Place) (c : Char) : Place :=
  if isBreak c then { line := p.line + 1, column := 0, index := p.index + 1 }
  else { p with column := p.column + 1, index := p.index + 1 }

/-- The part of a text still to be read, and where it starts. -/
structure Cursor where
  rest : List Char
  place : Place := {}
  deriving DecidableEq, Repr

namespace Cursor

/-- Go past one character. -/
def skip (c : Cursor) : Cursor :=
  match c.rest with
  | [] => c
  | ch :: rest => { rest, place := c.place.step ch }

/-- Go past a number of characters. -/
def skipMany : Nat → Cursor → Cursor
  | 0, c => c
  | n + 1, c => skipMany n c.skip

/-- Whether three of a character, then a gap, stand at the start of a line. -/
def startsMarker (mark : Char) (c : Cursor) : Bool :=
  c.place.column == 0 &&
    match c.rest with
    | a :: b :: d :: rest => a == mark && b == mark && d == mark && atGap rest
    | _ => false

/-- Whether the start or the end of a document is marked here. -/
def atDocumentMarker (c : Cursor) : Bool := c.startsMarker '-' || c.startsMarker '.'

end Cursor

/-- Go past blanks, breaks and comments. The flag says whether a key of a block mapping may
start here: outside flow collections, a new line allows it, and a tab is then no blank. -/
def skipSpace (inFlow : Bool) :
    List Char → Place → (inComment keyAllowed : Bool) → Bool × Cursor
  | [], p, _, keyAllowed => (keyAllowed, { rest := [], place := p })
  | c :: rest, p, inComment, keyAllowed =>
      if isBreak c then skipSpace inFlow rest (p.step c) false (keyAllowed || !inFlow)
      else if inComment then skipSpace inFlow rest (p.step c) true keyAllowed
      else if c == ' ' || (c == '\t' && (inFlow || !keyAllowed)) then
        skipSpace inFlow rest (p.step c) false keyAllowed
      else if c == '#' then skipSpace inFlow rest (p.step c) true keyAllowed
      else (keyAllowed, { rest := c :: rest, place := p })

end Chip8.Yaml
