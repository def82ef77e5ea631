import Chip8.Yaml.Scalar
import Chip8.Yaml.Token

/-!
# Cutting a text into tokens

The lexer goes through the text with a stack of the columns of the open block
collections. A key announces itself only by the colon behind it, so the lexer
remembers where the last token stood that could be one, and puts the `key`
token in front of it when the colon comes. Such a candidate must stand on the
colon's line and within `keyReach` characters of it.

Covered are block and flow collections, plain and quoted scalars, comments and
document markers; other text is refused with `none`.
-/

namespace Chip8.Yaml

/-- How far before its colon a key may start. -/
def keyReach : Nat := 1024

/-- A token that may turn out to be a key. -/
structure KeyCandidate where
  /-- Nothing but a key may stand here. -/
  required : Bool
  /-- How many tokens come before it. -/
  position : Nat
  place : Place

/-- Whether a candidate is near enough to a colon at a place. -/
def KeyCandidate.reaches (k : KeyCandidate) (p : Place) : Bool :=
  k.place.line == p.line && p.index ≤ k.place.index + keyReach

/-- The state of the lexer. -/
structure Lexer where
  cursor : Cursor
  tokens : Array Token := #[]
  /-- Columns of the open block collections, innermost first. -/
  indents : List Nat := []
  /-- Whether a key may start here. -/
  keyAllowed : Bool := true
  candidate : Option KeyCandidate := none
  /-- Candidates outside each open flow collection, innermost first. -/
  outer : List (Option KeyCandidate) := []

namespace Lexer

/-- Whether a flow collection is open. -/
def inFlow (l : Lexer) : Bool := !l.outer.isEmpty

/-- The column of the next character. -/
def column (l : Lexer) : Nat := l.cursor.place.column

/-- The first column that belongs to the innermost block collection's contents. -/
def contentColumn (l : Lexer) : Nat :=
  match l.indents with
  | [] => 0
  | indent :: _ => indent + 1

/-- Add a token behind those so far. -/
def emit (token : Token) (l : Lexer) : Lexer := { l with tokens := l.tokens.push token }

/-- Go past a number of characters. -/
def skipMany (count : Nat) (l : Lexer) : Lexer :=
  { l with cursor := l.cursor.skipMany count }

/-! ## Indentation -/

/-- How many of the open block collections start to the right of a column. -/
def deeperThan (column : Nat) (indents : List Nat) : Nat :=
  (indents.takeWhile (column < ·)).length

/-- Close a number of block collections. -/
def closeBlocks (count : Nat) (l : Lexer) : Lexer :=
  { l with
    indents := l.indents.drop count
    tokens := l.tokens ++ Array.replicate count .blockEnd }

/-- Close the block collections that start to the right of the current column. -/
def unindent (l : Lexer) : Lexer :=
  if l.inFlow then l else l.closeBlocks (deeperThan l.column l.indents)

/-- Close every block collection. -/
def closeAll (l : Lexer) : Lexer :=
  if l.inFlow then l else l.closeBlocks l.indents.length

/-- Open a block collection at a column, unless one is open there already; its token goes
before those from `position` on. -/
def indentTo (column position : Nat) (start : Token) (l : Lexer) : Lexer :=
  if !l.inFlow && l.contentColumn ≤ column then
    { l with
      indents := column :: l.indents
      tokens := l.tokens.insertIdxIfInBounds position start }
  else l

/-! ## Candidates -/

/-- Give up the candidate, which fails if a key had to stand there. -/
def dropCandidate (l : Lexer) : Option Lexer :=
  match l.candidate with
  | some k => if k.required then none else some { l with candidate := none }
  | none => some l

/-- Remember that the next token may be a key. -/
def saveCandidate (l : Lexer) : Option Lexer :=
  if l.keyAllowed then
    l.dropCandidate.map fun l =>
      { l with
        candidate := some
          { required := !l.inFlow && l.indents.head? == some l.column
            position := l.tokens.size
            place := l.cursor.place } }
  else some l

/-! ## Tokens -/

/-- The marker of a document's start or end. -/
def documentMarker (token : Token) (l : Lexer) : Option Lexer :=
  l.closeAll.dropCandidate.map fun l =>
    ({ l with keyAllowed := false }.skipMany 3).emit token

/-- The opening of a flow collection. -/
def flowStart (token : Token) (l : Lexer) : Option Lexer :=
  l.saveCandidate.map fun l =>
    ({ l with keyAllowed := true, outer := l.candidate :: l.outer, candidate := none }.skipMany
      1).emit token

/-- The end of a flow collection. -/
def flowEnd (token : Token) (l : Lexer) : Option Lexer :=
  l.dropCandidate.map fun l =>
    ({ l with
      keyAllowed := false
      candidate := l.outer.head?.join
      outer := l.outer.tail }.skipMany 1).emit token

/-- A comma. -/
def flowEntry (l : Lexer) : Option Lexer :=
  l.dropCandidate.map fun l => ({ l with keyAllowed := true }.skipMany 1).emit .flowEntry

/-- The dash before an item. -/
def blockEntry (l : Lexer) : Option Lexer :=
  if !l.inFlow && !l.keyAllowed then none
  else
    (l.indentTo l.column l.tokens.size .blockSequenceStart).dropCandidate.map fun l =>
      ({ l with keyAllowed := true }.skipMany 1).emit .blockEntry

/-- The question mark before a key. -/
def explicitKey (l : Lexer) : Option Lexer :=
  if !l.inFlow && !l.keyAllowed then none
  else
    (l.indentTo l.column l.tokens.size .blockMappingStart).dropCandidate.map fun l =>
      ({ l with keyAllowed := !l.inFlow }.skipMany 1).emit .key

/-- The colon before a value that belongs to a candidate. -/
def valueOf (k : KeyCandidate) (l : Lexer) : Lexer :=
  let l := { l with tokens := l.tokens.insertIdxIfInBounds k.position .key }
  let l := l.indentTo k.place.column k.position .blockMappingStart
  ({ l with candidate := none, keyAllowed := false }.skipMany 1).emit .value

/-- The colon before a value whose key is not on the line. -/
def valueAlone (l : Lexer) : Option Lexer :=
  if !l.inFlow && !l.keyAllowed then none
  else
    let l := l.indentTo l.column l.tokens.size .blockMappingStart
    some (({ l with keyAllowed := !l.inFlow }.skipMany 1).emit .value)

/-- The colon before a value. -/
def value (l : Lexer) : Option Lexer :=
  match l.candidate with
  | none => l.valueAlone
  | some k =>
      if k.reaches l.cursor.place then some (l.valueOf k)
      else l.dropCandidate.bind valueAlone

/-- A quoted scalar. -/
def quoted (quote : Char) (l : Lexer) : Option Lexer := do
  let l ← l.saveCandidate
  let (text, cursor) ← quotedScalar quote l.cursor
  return { l with keyAllowed := false, cursor }.emit (.scalar false text)

/-- A plain scalar. -/
def plain (l : Lexer) : Option Lexer := do
  let l ← l.saveCandidate
  let (text, lineEnded, cursor) ← plainScalar l.inFlow l.contentColumn l.cursor
  return { l with keyAllowed := lineEnded, cursor }.emit (.scalar true text)

/-- Characters that start no plain scalar. -/
def isIndicator (c : Char) : Bool :=
  isFlowIndicator c || c == '-' || c == '?' || c == ':' || c == '#' || c == '&' || c == '*' ||
  c == '!' || c == '|' || c == '>' || c == '\'' || c == '"' || c == '%' || c == '@' ||
  c == '\x60'

/-- Whether a plain scalar starts with this character before that text. -/
def startsPlain (inFlow : Bool) (c : Char) (rest : List Char) : Bool :=
  !(isIndicator c || isGap c) || (c == '-' && !atGap rest) ||
  (!inFlow && (c == '?' || c == ':') && !atGap rest)

/-- The next token, where neither blanks nor comments stand. -/
def next (c : Char) (rest : List Char) (l : Lexer) : Option Lexer :=
  if c == '%' && l.column == 0 then none
  else if l.cursor.startsMarker '-' then l.documentMarker .documentStart
  else if l.cursor.startsMarker '.' then l.documentMarker .documentEnd
  else if c == '[' then l.flowStart .flowSequenceStart
  else if c == '\x7b' then l.flowStart .flowMappingStart
  else if c == ']' then l.flowEnd .flowSequenceEnd
  else if c == '\x7d' then l.flowEnd .flowMappingEnd
  else if c == ',' then l.flowEntry
  else if c == '-' && atGap rest then l.blockEntry
  else if c == '?' && (l.inFlow || atGap rest) then l.explicitKey
  else if c == ':' && (l.inFlow || atGap rest) then l.value
  else if c == '\'' || c == '"' then l.quoted c
  else if startsPlain l.inFlow c rest then l.plain
  else none

/-- The state at the next token: past blanks and comments, with the block collections closed
that the token does not belong to. -/
def settle (l : Lexer) : Lexer :=
  let (keyAllowed, cursor) :=
    skipSpace l.inFlow l.cursor.rest l.cursor.place false l.keyAllowed
  { l with keyAllowed, cursor }.unindent

/-- The tokens of the whole text. The number bounds those still to come. -/
def run : Nat → Lexer → Option (Array Token)
  | 0, _ => none
  | fuel + 1, l =>
      let l := l.settle
      match l.cursor.rest with
      | [] => l.closeAll.dropCandidate.map Lexer.tokens
      | c :: rest =>
          match l.next c rest with
          | none => none
          | some l => run fuel l

end Lexer

/-- The text without a byte order mark in front. -/
def dropMark : List Char → List Char
  | '\uFEFF' :: rest => rest
  | cs => cs

/-- The tokens of a text. -/
def Token.ofText? (text : List Char) : Option (List Token) :=
  let cs := normalizeBreaks (dropMark text)
  if cs.all isAllowed then
    (Lexer.run (cs.length + 1) { cursor := { rest := cs } }).map Array.toList
  else none

end Chip8.Yaml
