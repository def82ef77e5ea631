import Chip8.Decimal
import Chip8.Yaml.Node

/-!
# Values of plain scalars

Which plain scalars are numbers, truth values or null. Quoted scalars never are.

A whole number is decimal with an optional plus sign, or has one of the marks
`0x`, `0o`, `0b`; a zero in front of further decimal digits makes the scalar a
string. A real number is decimal with an optional sign, fraction and exponent,
or one of the words for infinity and not-a-number.
-/

namespace Chip8.Yaml

/-! ## Whole numbers -/

/-- Whether a text is digits behind a zero that does not belong there. -/
def hasIdleZero : List Char → Bool
  | '0' :: c :: cs => (c :: cs).all Char.isDigit
  | _ => false

/-- The base that a mark in front announces, and the digits behind it. -/
def baseOf : List Char → Nat × List Char
  | '0' :: 'x' :: cs => (16, cs)
  | '0' :: 'o' :: cs => (8, cs)
  | '0' :: 'b' :: cs => (2, cs)
  | cs => (10, cs)

/-- The whole number a plain scalar stands for, below a limit. -/
def natural? (limit : Nat) (text : List Char) : Option Nat :=
  let unsigned := Numeral.dropPlus text
  let (base, digits) := baseOf unsigned
  if hasIdleZero unsigned then none
  else
    match Numeral.value? base digits with
    | some n => if n < limit then some n else none
    | none => none

/-! ## Truth values and null -/

/-- The truth value a plain scalar stands for. -/
def boolean? (text : List Char) : Option Bool :=
  if ["true", "True", "TRUE"].any (·.toList == text) then some true
  else if ["false", "False", "FALSE"].any (·.toList == text) then some false
  else none

/-- Whether a plain scalar stands for null; an empty one does. -/
def isNull (text : List Char) : Bool :=
  text.isEmpty || ["~", "null", "Null", "NULL"].any (·.toList == text)

/-! ## Real numbers -/

/-- A decimal exponent: a sign, if any, and digits. -/
def exponent? : List Char → Option Int
  | '-' :: cs => (Numeral.value? 10 cs).map fun n => -(n : Int)
  | '+' :: cs => (Numeral.value? 10 cs).map fun n => (n : Int)
  | cs => (Numeral.value? 10 cs).map fun n => (n : Int)

/-- The exponent at the end of a number, zero when there is none. -/
def exponentPart? : List Char → Option Int
  | [] => some 0
  | c :: cs => if c == 'e' || c == 'E' then exponent? cs else none

/-- An unsigned decimal number: digits with a point among them or not, and an exponent. -/
def decimal? (text : List Char) : Option Decimal :=
  let whole := text.takeWhile Char.isDigit
  let afterWhole := text.dropWhile Char.isDigit
  let afterPoint := if afterWhole.head? == some '.' then afterWhole.tail else []
  let fraction := afterPoint.takeWhile Char.isDigit
  let tail :=
    if afterWhole.head? == some '.' then afterPoint.dropWhile Char.isDigit else afterWhole
  match Numeral.value? 10 (whole ++ fraction), exponentPart? tail with
  | some coefficient, some exponent =>
      some { coefficient, exponent := exponent - fraction.length }
  | _, _ => none

/-- The finite double of an unsigned decimal number. -/
def magnitude? (text : List Char) : Option Float :=
  match decimal? text with
  | some d =>
      let x := d.toFloat
      if x.isFinite then some x else none
  | none => none

/-- A decimal number with a minus sign in front, if any. -/
def signed? : List Char → Option Float
  | '-' :: cs => (magnitude? cs).map (- ·)
  | cs => magnitude? cs

/-- Whether a text is one of three spellings of a word. -/
def spelled (words : List String) (text : List Char) : Bool :=
  words.any (·.toList == text)

/-- The real number a plain scalar stands for. -/
def real? (text : List Char) : Option Float :=
  let unsigned := Numeral.dropPlus text
  if spelled [".inf", ".Inf", ".INF"] unsigned then some (1 / 0)
  else if spelled ["-.inf", "-.Inf", "-.INF"] text then some (-1 / 0)
  else if spelled [".nan", ".NaN", ".NAN"] text then some (0 / 0)
  else if unsigned != text then magnitude? unsigned
  else signed? text

/-! ## Values of nodes -/

namespace Node

/-- The text of a plain scalar. -/
def plainText? : Node → Option (List Char)
  | .scalar true text => some text
  | _ => none

/-- The whole number a node stands for, below a limit. -/
def natural? (limit : Nat) (node : Node) : Option Nat :=
  node.plainText?.bind (Yaml.natural? limit)

/-- The truth value a node stands for. -/
def boolean? (node : Node) : Option Bool := node.plainText?.bind Yaml.boolean?

/-- The real number a node stands for. -/
def real? (node : Node) : Option Float := node.plainText?.bind Yaml.real?

/-- A value that may be null. -/
def nullable? {α : Type} (read : Node → Option α) (node : Node) : Option (Option α) :=
  match node with
  | .scalar true text => if isNull text then some none else (read node).map some
  | _ => (read node).map some

/-- The items of a sequence; nothing written counts as no items. -/
def items? : Node → Option (List Node)
  | .sequence items => some items
  | .scalar true [] => some []
  | _ => none

/-- A pair of a mapping whose key is a scalar. -/
def namedPair? : Node × Node → Option (List Char × Node)
  | (.scalar _ name, value) => some (name, value)
  | _ => none

/-- The fields of a mapping whose keys are scalars; nothing written counts as no fields. -/
def fields? : Node → Option (List (List Char × Node))
  | .mapping pairs => pairs.mapM namedPair?
  | .scalar true [] => some []
  | _ => none

end Node

/-- The value of a field, read if it is there. A field that is there twice is refused. -/
def field? {α : Type} (name : String) (read : Node → Option α)
    (fields : List (List Char × Node)) : Option (Option α) :=
  match fields.filter (·.1 == name.toList) with
  | [] => some none
  | [(_, value)] => (read value).map some
  | _ => none

/-- The value of a field that has to be there once. -/
def required? {α : Type} (name : String) (read : Node → Option α)
    (fields : List (List Char × Node)) : Option α :=
  (field? name read fields).join

end Chip8.Yaml
