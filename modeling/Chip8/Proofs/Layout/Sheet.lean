import Chip8.Numeral
import Chip8.Yaml.Node

/-!
# Settings sheets

A sheet is a settings file in one particular layout. Each entry has a heading at the
start of a line. Behind its colon stands a word on the same line, or there are lines
further in: fields with a word each, or rows of such fields in braces, one row behind
each dash.

The three readings of a sheet are given side by side here: its text, the tokens it is
cut into, and the tree it stands for. A heading with nothing below it stands for an
empty value.
-/

namespace Chip8.Yaml

/-! ## Words -/

/-- The characters that words are made of. -/
def wordChars : List Char := "0123456789abcdefghijklmnopqrstuvwxyz".toList

/-- A text that is one plain scalar wherever it stands. -/
structure IsWord (text : List Char) : Prop where
  ne_nil : text ≠ []
  chars : ∀ c ∈ text, c ∈ wordChars

/-- A word that is no longer than a key may be. -/
structure IsName (text : List Char) : Prop extends IsWord text where
  short : text.length ≤ keyReach

/-! ## Sheets -/

/-- A name and the word behind its colon. -/
abbrev Field := List Char × List Char

/-- What belongs to a heading. -/
inductive Content where
  /-- A word on the line of the heading. -/
  | word (text : List Char)
  /-- A line for each field. -/
  | fields (fs : List Field)
  /-- A line for each row, which has one field or more. -/
  | rows (rs : List (Field × List Field))
  deriving DecidableEq, Repr

/-- Headings with their contents. -/
abbrev Sheet := List (List Char × Content)

/-! ## Text -/

/-- A field, behind a blank. -/
def Field.text (f : Field) : List Char := ' ' :: f.1 ++ ':' :: ' ' :: f.2

namespace Content

/-- The line of a field, two blanks in. -/
def fieldLine (f : Field) : List Char := ' ' :: Field.text f ++ ['\n']

/-- The line of a row, two blanks in. -/
def rowLine (row : Field × List Field) : List Char :=
  ' ' :: ' ' :: '-' :: ' ' :: '\x7b' :: Field.text row.1 ++
    (row.2.flatMap fun f => ',' :: Field.text f) ++ [' ', '\x7d', '\n']

/-- What is written behind the colon of the heading. -/
def text : Content → List Char
  | .word w => ' ' :: w ++ ['\n']
  | .fields fs => '\n' :: fs.flatMap fieldLine
  | .rows rs => '\n' :: rs.flatMap rowLine

end Content

/-- The text of a sheet. -/
def Sheet.text (sheet : Sheet) : List Char :=
  sheet.flatMap fun (name, content) => name ++ ':' :: content.text

/-! ## Tokens -/

/-- The tokens of a name and its colon. -/
def keyTokens (name : List Char) : List Token := [.key, .scalar true name, .value]

/-- The tokens of a field. -/
def Field.tokens (f : Field) : List Token := keyTokens f.1 ++ [.scalar true f.2]

namespace Content

/-- The tokens of a row. -/
def rowTokens (row : Field × List Field) : List Token :=
  .blockEntry :: .flowMappingStart :: Field.tokens row.1 ++
    (row.2.flatMap fun f => .flowEntry :: Field.tokens f) ++ [.flowMappingEnd]

/-- The tokens behind the colon of the heading. -/
def tokens : Content → List Token
  | .word w => [.scalar true w]
  | .fields [] => []
  | .fields fs => .blockMappingStart :: fs.flatMap Field.tokens ++ [.blockEnd]
  | .rows [] => []
  | .rows rs => .blockSequenceStart :: rs.flatMap rowTokens ++ [.blockEnd]

end Content

/-- The tokens of a heading with what belongs to it. -/
def Sheet.entryTokens (name : List Char) (content : Content) : List Token :=
  keyTokens name ++ content.tokens

/-- The tokens of a sheet. -/
def Sheet.tokens : Sheet → List Token
  | [] => []
  | sheet =>
      .blockMappingStart ::
        (sheet.flatMap fun (name, content) => entryTokens name content) ++ [.blockEnd]

/-! ## Trees -/

/-- The pair of nodes a field stands for. -/
def Field.pair (f : Field) : Node × Node := (.scalar true f.1, .scalar true f.2)

/-- The node of a row. -/
def Content.rowNode (row : Field × List Field) : Node :=
  .mapping ((row.1 :: row.2).map Field.pair)

/-- The node that belongs to a heading. -/
def Content.node : Content → Node
  | .word w => .scalar true w
  | .fields [] => .empty
  | .fields fs => .mapping (fs.map Field.pair)
  | .rows [] => .empty
  | .rows rs => .sequence (rs.map rowNode)

/-- The node of a sheet. -/
def Sheet.node : Sheet → Node
  | [] => .empty
  | sheet => .mapping (sheet.map fun (name, content) => (.scalar true name, content.node))

/-! ## Well-formed sheets -/

/-- A field is a name and a word. -/
structure Field.WellFormed (f : Field) : Prop where
  name : IsName f.1
  value : IsWord f.2

/-- Everything is made of names and words. -/
def Content.WellFormed : Content → Prop
  | .word w => IsWord w
  | .fields fs => ∀ f ∈ fs, Field.WellFormed f
  | .rows rs => ∀ row ∈ rs, Field.WellFormed row.1 ∧ ∀ f ∈ row.2, Field.WellFormed f

/-- Everything is made of names and words. -/
def Sheet.WellFormed (sheet : Sheet) : Prop :=
  ∀ entry ∈ sheet, IsName entry.1 ∧ entry.2.WellFormed

end Chip8.Yaml
