import Chip8.Numeral
import Chip8.Yaml.Cursor

/-!
# Scalars

Plain and quoted scalars, read from a cursor. A scalar may go over several
lines: a single line break counts as a space, and further ones stand for
themselves. What separates two runs of text is kept as a `Gap`, because it
belongs to the scalar only if more text follows.

`none` says that the text is no YAML.
-/

namespace Chip8.Yaml

/-! ## Gaps -/

/-- Blanks and breaks between two runs of text. -/
structure Gap where
  /-- Blanks before the first break. -/
  blanks : List Char := []
  /-- Whether a line ended. -/
  folded : Bool := false
  /-- The first break, unless it was escaped. -/
  leading : List Char := []
  /-- The other breaks. -/
  trailing : List Char := []
  deriving DecidableEq, Repr

/-- What a gap stands for between two runs of text. -/
def Gap.text (g : Gap) : List Char :=
  if g.folded then
    if g.leading = ['\n'] then
      if g.trailing.isEmpty then [' '] else g.trailing
    else g.leading ++ g.trailing
  else g.blanks

/-- Read on through a gap. On a new line a tab to the left of `limit` is refused. -/
def readGap (limit : Nat) : List Char → Place → Gap → Option (Gap × Cursor)
  | [], p, g => some (g, { rest := [], place := p })
  | c :: rest, p, g =>
      if isBreak c then
        readGap limit rest (p.step c)
          (if g.folded then { g with trailing := g.trailing ++ [c] }
           else { g with folded := true, leading := [c] })
      else if isBlank c then
        if g.folded then
          if c == '\t' && p.column < limit then none else readGap limit rest (p.step c) g
        else readGap limit rest (p.step c) { g with blanks := g.blanks ++ [c] }
      else some (g, { rest := c :: rest, place := p })

/-! ## Plain scalars -/

/-- Characters that separate items and entries of flow collections. -/
def isFlowIndicator (c : Char) : Bool :=
  c == ',' || c == '[' || c == ']' || c == '\x7b' || c == '\x7d'

/-- Whether the head is a flow indicator or a question mark. -/
def atFlowIndicator : List Char → Bool
  | [] => false
  | c :: _ => isFlowIndicator c || c == '?'

/-- The run of text up to a gap or to what ends a plain scalar. In flow collections a colon
before an indicator is refused. -/
def plainRun (inFlow : Bool) : List Char → Place → Option (List Char × Cursor)
  | [], p => some ([], { rest := [], place := p })
  | c :: rest, p =>
      if isGap c then some ([], { rest := c :: rest, place := p })
      else if inFlow && c == ':' && atFlowIndicator rest then none
      else if (c == ':' && atGap rest) || (inFlow && isFlowIndicator c) then
        some ([], { rest := c :: rest, place := p })
      else (plainRun inFlow rest (p.step c)).map fun (text, cursor) => (c :: text, cursor)

/-- Whether a comment starts at the head. -/
def atComment : List Char → Bool
  | '#' :: _ => true
  | _ => false

/-- Read a plain scalar on, after the text and the gap read so far. The answer has its text
and whether a line ended after it. The number bounds the runs still to be read. -/
def plainFrom (inFlow : Bool) (limit : Nat) :
    Nat → Cursor → List Char → Gap → Option (List Char × Bool × Cursor)
  | 0, _, _, _ => none
  | fuel + 1, cursor, text, gap =>
      if cursor.atDocumentMarker || atComment cursor.rest then some (text, gap.folded, cursor)
      else
        match plainRun inFlow cursor.rest cursor.place with
        | none => none
        | some ([], _) => some (text, gap.folded, cursor)
        | some (run, cursor) =>
            let text := text ++ gap.text ++ run
            if cursor.rest.isEmpty || !atGap cursor.rest then some (text, false, cursor)
            else
              match readGap limit cursor.rest cursor.place {} with
              | none => none
              | some (gap, cursor) =>
                  if !inFlow && cursor.place.column < limit then some (text, gap.folded, cursor)
                  else plainFrom inFlow limit fuel cursor text gap

/-- The plain scalar at a cursor. Outside flow collections it ends at a line that starts to
the left of `limit`. -/
def plainScalar (inFlow : Bool) (limit : Nat) (cursor : Cursor) :
    Option (List Char × Bool × Cursor) :=
  plainFrom inFlow limit (cursor.rest.length + 1) cursor [] {}

/-! ## Quoted scalars -/

/-- The run of text up to a gap or the closing quote, between single quotes: a quote in the
text is written twice. -/
def singleRun : List Char → Place → List Char × Cursor
  | [], p => ([], { rest := [], place := p })
  | '\'' :: '\'' :: rest, p =>
      let (text, cursor) := singleRun rest ((p.step '\'').step '\'')
      ('\'' :: text, cursor)
  | c :: rest, p =>
      if isGap c || c == '\'' then ([], { rest := c :: rest, place := p })
      else
        let (text, cursor) := singleRun rest (p.step c)
        (c :: text, cursor)

/-- What a character stands for after a backslash. -/
def escaped? (c : Char) : Option Char :=
  match c with
  | '0' => some '\x00'
  | 'a' => some '\x07'
  | 'b' => some '\x08'
  | 't' => some '\t'
  | '\t' => some '\t'
  | 'n' => some '\n'
  | 'v' => some '\x0b'
  | 'f' => some '\x0c'
  | 'r' => some '\r'
  | 'e' => some '\x1b'
  | ' ' => some ' '
  | '"' => some '"'
  | '/' => some '/'
  | '\\' => some '\\'
  | 'N' => some '\u0085'
  | '_' => some '\u00a0'
  | 'L' => some '\u2028'
  | 'P' => some '\u2029'
  | _ => none

/-- How many digits follow a backslash and this character. -/
def escapeLength? (c : Char) : Option Nat :=
  match c with
  | 'x' => some 2
  | 'u' => some 4
  | 'U' => some 8
  | _ => none

/-- The character of a code point, if there is one. -/
def charOfCode? (code : Nat) : Option Char :=
  if code.isValidChar then some (Char.ofNat code) else none

/-- The run of text up to a gap or the closing quote, between double quotes. The flag says
that the line ended in a backslash; `digits` counts the digits of an escape that are still
to come and `code` is their value so far. -/
def doubleRun : (digits code : Nat) → List Char → Place → Option (List Char × Bool × Cursor)
  | 0, _, '\\' :: c :: rest, p =>
      let after := (p.step '\\').step c
      if isBreak c then some ([], true, { rest, place := after })
      else
        match escapeLength? c with
        | some digits => doubleRun digits 0 rest after
        | none =>
            match escaped? c with
            | some char =>
                (doubleRun 0 0 rest after).map fun (text, broken, cursor) =>
                  (char :: text, broken, cursor)
            | none => none
  | 0, _, c :: rest, p =>
      if isGap c || c == '"' then some ([], false, { rest := c :: rest, place := p })
      else if c == '\\' then none
      else
        (doubleRun 0 0 rest (p.step c)).map fun (text, broken, cursor) =>
          (c :: text, broken, cursor)
  | 0, _, [], p => some ([], false, { rest := [], place := p })
  | digits + 1, code, c :: rest, p =>
      match Numeral.digitValue? c with
      | none => none
      | some value =>
          let code := 16 * code + value
          if digits = 0 then
            match charOfCode? code with
            | none => none
            | some char =>
                (doubleRun 0 0 rest (p.step c)).map fun (text, broken, cursor) =>
                  (char :: text, broken, cursor)
          else doubleRun digits code rest (p.step c)
  | _ + 1, _, [], _ => none

/-- The run of text between quotes of one kind. -/
def quotedRun (quote : Char) (cursor : Cursor) : Option (List Char × Bool × Cursor) :=
  if quote == '"' then doubleRun 0 0 cursor.rest cursor.place
  else
    let (text, cursor) := singleRun cursor.rest cursor.place
    some (text, false, cursor)

/-- Read a quoted scalar on, after the text read so far, up to and past its closing quote.
The number bounds the runs still to be read. -/
def quotedFrom (quote : Char) : Nat → Cursor → List Char → Option (List Char × Cursor)
  | 0, _, _ => none
  | fuel + 1, cursor, text =>
      if cursor.atDocumentMarker then none
      else
        match quotedRun quote cursor with
        | none => none
        | some (run, broken, cursor) =>
            let text := text ++ run
            match cursor.rest with
            | [] => none
            | c :: _ =>
                if !broken && c == quote then some (text, cursor.skip)
                else
                  match readGap 0 cursor.rest cursor.place { folded := broken } with
                  | none => none
                  | some (gap, cursor) => quotedFrom quote fuel cursor (text ++ gap.text)

/-- The quoted scalar whose opening quote is at the cursor. -/
def quotedScalar (quote : Char) (cursor : Cursor) : Option (List Char × Cursor) :=
  quotedFrom quote (cursor.rest.length + 1) cursor.skip []

end Chip8.Yaml
