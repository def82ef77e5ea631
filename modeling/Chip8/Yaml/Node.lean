import Chip8.Yaml.Lexer

/-!
# Nodes

The tree a text stands for: scalars, sequences and mappings. A place where a
node may stand but none does counts as an empty plain scalar, and so does a
text without content.
-/

namespace Chip8.Yaml

/-- A node of the tree. -/
inductive Node where
  | scalar (plain : Bool) (text : List Char)
  | sequence (items : List Node)
  | mapping (pairs : List (Node × Node))
  deriving Repr

namespace Node

/-- What stands where nothing is written. -/
def empty : Node := .scalar true []

/-- A node and the tokens behind it. -/
abbrev Parsed (α : Type) := Option (α × List Token)

/-- Whether the head is one of the tokens that follow a missing node. -/
def missingBefore (followers : List Token) : List Token → Bool
  | [] => false
  | token :: _ => followers.contains token

mutual

/-- The node at the head. `inBlock` admits block collections, `unindented` also a block
sequence at the column of the mapping around it. The number bounds the tokens read. -/
def parse (fuel : Nat) (inBlock unindented : Bool) (ts : List Token) : Parsed Node :=
  match fuel with
  | 0 => none
  | fuel + 1 =>
      match ts with
      | .scalar plain text :: ts => some (.scalar plain text, ts)
      | .flowSequenceStart :: ts => flowItems fuel true ts []
      | .flowMappingStart :: ts => flowPairs fuel true ts []
      | .blockEntry :: rest =>
          if unindented then unindentedItems fuel (.blockEntry :: rest) [] else none
      | .blockSequenceStart :: ts => if inBlock then blockItems fuel ts [] else none
      | .blockMappingStart :: ts => if inBlock then blockPairs fuel ts [] else none
      | _ => none
termination_by structural fuel

/-- The node at the head, or the empty one before any of the given tokens. -/
def parseOr (fuel : Nat) (followers : List Token) (inBlock unindented : Bool)
    (ts : List Token) : Parsed Node :=
  match fuel with
  | 0 => none
  | fuel + 1 =>
      if missingBefore followers ts then some (.empty, ts)
      else parse fuel inBlock unindented ts
termination_by structural fuel

/-- The items of a block sequence. -/
def blockItems (fuel : Nat) (ts : List Token) (items : List Node) : Parsed Node :=
  match fuel with
  | 0 => none
  | fuel + 1 =>
      match ts with
      | .blockEntry :: ts =>
          match parseOr fuel [.blockEntry, .blockEnd] true false ts with
          | some (item, ts) => blockItems fuel ts (item :: items)
          | none => none
      | .blockEnd :: ts => some (.sequence items.reverse, ts)
      | _ => none
termination_by structural fuel

/-- The items of a block sequence at the column of the mapping around it. -/
def unindentedItems (fuel : Nat) (ts : List Token) (items : List Node) : Parsed Node :=
  match fuel with
  | 0 => none
  | fuel + 1 =>
      match ts with
      | .blockEntry :: ts =>
          match parseOr fuel [.blockEntry, .key, .value, .blockEnd] true false ts with
          | some (item, ts) => unindentedItems fuel ts (item :: items)
          | none => none
      | ts => some (.sequence items.reverse, ts)
termination_by structural fuel

/-- The value at the head, if a colon announces one. -/
def parseValue (fuel : Nat) (followers : List Token) (inBlock : Bool) (ts : List Token) :
    Parsed Node :=
  match fuel with
  | 0 => none
  | fuel + 1 =>
      match ts with
      | .value :: ts => parseOr fuel followers inBlock inBlock ts
      | ts => some (.empty, ts)
termination_by structural fuel

/-- The pairs of a block mapping. -/
def blockPairs (fuel : Nat) (ts : List Token) (pairs : List (Node × Node)) : Parsed Node :=
  match fuel with
  | 0 => none
  | fuel + 1 =>
      match ts with
      | .key :: ts =>
          match parseOr fuel [.key, .value, .blockEnd] true true ts with
          | none => none
          | some (key, ts) =>
              match parseValue fuel [.key, .value, .blockEnd] true ts with
              | some (value, ts) => blockPairs fuel ts ((key, value) :: pairs)
              | none => none
      | .blockEnd :: ts => some (.mapping pairs.reverse, ts)
      | _ => none
termination_by structural fuel

/-- One item of a flow sequence: a node, or a single pair. -/
def flowItem (fuel : Nat) (ts : List Token) : Parsed Node :=
  match fuel with
  | 0 => none
  | fuel + 1 =>
      match ts with
      | .key :: ts =>
          match parseOr fuel [.value, .flowEntry, .flowSequenceEnd] false false ts with
          | none => none
          | some (key, ts) =>
              match parseValue fuel [.flowEntry, .flowSequenceEnd] false ts with
              | some (value, ts) => some (.mapping [(key, value)], ts)
              | none => none
      | ts => parse fuel false false ts
termination_by structural fuel

/-- The items of a flow sequence, with a comma between any two. -/
def flowItems (fuel : Nat) (first : Bool) (ts : List Token) (items : List Node) :
    Parsed Node :=
  match fuel with
  | 0 => none
  | fuel + 1 =>
      match first, ts with
      | _, .flowSequenceEnd :: ts => some (.sequence items.reverse, ts)
      | false, .flowEntry :: .flowSequenceEnd :: ts => some (.sequence items.reverse, ts)
      | false, .flowEntry :: ts =>
          match flowItem fuel ts with
          | some (item, ts) => flowItems fuel false ts (item :: items)
          | none => none
      | false, _ => none
      | true, ts =>
          match flowItem fuel ts with
          | some (item, ts) => flowItems fuel false ts (item :: items)
          | none => none
termination_by structural fuel

/-- One pair of a flow mapping; a node without a colon is a key whose value is missing. -/
def flowPair (fuel : Nat) (ts : List Token) : Parsed (Node × Node) :=
  match fuel with
  | 0 => none
  | fuel + 1 =>
      match ts with
      | .key :: ts =>
          match parseOr fuel [.value, .flowEntry, .flowMappingEnd] false false ts with
          | none => none
          | some (key, ts) =>
              match parseValue fuel [.flowEntry, .flowMappingEnd] false ts with
              | some (value, ts) => some ((key, value), ts)
              | none => none
      | ts => (parse fuel false false ts).map fun (key, ts) => ((key, .empty), ts)
termination_by structural fuel

/-- The pairs of a flow mapping, with a comma between any two. -/
def flowPairs (fuel : Nat) (first : Bool) (ts : List Token) (pairs : List (Node × Node)) :
    Parsed Node :=
  match fuel with
  | 0 => none
  | fuel + 1 =>
      match first, ts with
      | _, .flowMappingEnd :: ts => some (.mapping pairs.reverse, ts)
      | false, .flowEntry :: .flowMappingEnd :: ts => some (.mapping pairs.reverse, ts)
      | false, .flowEntry :: ts =>
          match flowPair fuel ts with
          | some (pair, ts) => flowPairs fuel false ts (pair :: pairs)
          | none => none
      | false, _ => none
      | true, ts =>
          match flowPair fuel ts with
          | some (pair, ts) => flowPairs fuel false ts (pair :: pairs)
          | none => none
termination_by structural fuel

end

/-- The node of a document's tokens, and the tokens behind it. -/
def ofDocument? (fuel : Nat) : List Token → Parsed Node
  | [] => some (.empty, [])
  | .documentStart :: ts =>
      match ts with
      | [] => some (.empty, [])
      | .documentStart :: _ => some (.empty, ts)
      | .documentEnd :: _ => some (.empty, ts)
      | _ => parse fuel true false ts
  | ts => parse fuel true false ts

/-- The node of a text that is one document. -/
def ofTokens? (ts : List Token) : Option Node :=
  match ofDocument? (4 * ts.length + 4) ts with
  | some (node, rest) => if rest.all (· == .documentEnd) then some node else none
  | none => none

/-- The node a text stands for. -/
def ofText? (text : String) : Option Node := (Token.ofText? text.toList).bind ofTokens?

end Node

end Chip8.Yaml
