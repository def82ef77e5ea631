/-!
# Tokens

The pieces a text is cut into before its nodes are put together. Indentation
shows up as tokens of its own: a block collection is opened where a line goes
further to the right and closed where one comes back to the left.
-/

namespace Chip8.Yaml

/-- A piece of a text. -/
inductive Token where
  | documentStart
  | documentEnd
  | blockSequenceStart
  | blockMappingStart
  | blockEnd
  | flowSequenceStart
  | flowSequenceEnd
  | flowMappingStart
  | flowMappingEnd
  /-- The dash before an item of a block sequence. -/
  | blockEntry
  /-- The comma between parts of a flow collection. -/
  | flowEntry
  /-- What follows is a key. -/
  | key
  /-- What follows is the value of a key. -/
  | value
  /-- A scalar; a plain one has no quotes. -/
  | scalar (plain : Bool) (text : List Char)
  deriving DecidableEq, Repr

end Chip8.Yaml
