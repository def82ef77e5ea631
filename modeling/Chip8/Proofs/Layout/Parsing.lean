import Chip8.Proofs.Layout.Sheet

/-!
# Putting the tokens of a sheet together

The parser is given a number that bounds how deep it may go. Every token it takes
on its way through a collection costs at most one, so a number somewhat above the
count of the tokens is enough, and each statement here holds of all such numbers.

A heading with nothing below it has no token of its own. Its value is the empty
one because a key or the end of the mapping follows, so this is asked of the
tokens behind a value.

## Main results

* `Node.blockPairs_fields`, `Node.blockItems_rows` — the lines below a heading.
* `Node.parseOr_content` — what belongs to a heading.
* `Sheet.ofTokens?_tokens` — the tokens of a sheet are put together to its tree.
-/

namespace Chip8.Yaml

namespace Node

/-! ## Fields -/

/-- What may stand behind the value of a pair in a block mapping. -/
def pairFollowers : List Token := [.key, .value, .blockEnd]

/-- A pair of a block mapping whose key is a name. -/
theorem blockPairs_key (fuel : Nat) (name : List Char) (ts : List Token)
    (pairs : List (Node × Node)) :
    blockPairs (fuel + 4) (keyTokens name ++ ts) pairs =
      match parseOr (fuel + 2) pairFollowers true true ts with
      | some (value, ts) => blockPairs (fuel + 3) ts ((.scalar true name, value) :: pairs)
      | none => none := rfl

private theorem blockPairs_field (fuel : Nat) (f : Field) (ts : List Token)
    (pairs : List (Node × Node)) :
    blockPairs (fuel + 4) (f.tokens ++ ts) pairs = blockPairs (fuel + 3) ts (f.pair :: pairs) := rfl

/-- The fields on the lines below a heading. -/
theorem blockPairs_fields {fs : List Field} {fuel : Nat}
    (hFuel : (fs.flatMap Field.tokens).length < fuel)
    (ts : List Token) (pairs : List (Node × Node)) :
    blockPairs fuel (fs.flatMap Field.tokens ++ .blockEnd :: ts) pairs =
      some (.mapping (pairs.reverse ++ fs.map Field.pair), ts) := by
  induction fs generalizing fuel pairs with
  | nil =>
      obtain ⟨fuel, rfl⟩ : ∃ k, fuel = k + 1 := ⟨fuel - 1, by omega⟩
      rw [List.map_nil, List.append_nil]
      rfl
  | cons f fs ih =>
      rw [List.flatMap_cons, List.length_append, show f.tokens.length = 4 from rfl] at hFuel
      obtain ⟨fuel, rfl⟩ : ∃ k, fuel = k + 4 := ⟨fuel - 4, by omega⟩
      rw [List.flatMap_cons, List.append_assoc, blockPairs_field, ih (by omega)]
      simp

/-! ## Rows -/

private theorem flowPairs_first (fuel : Nat) (f : Field) (ts : List Token) :
    flowPairs (fuel + 5) true (f.tokens ++ ts) [] = flowPairs (fuel + 4) false ts [f.pair] := rfl

private theorem flowPairs_next (fuel : Nat) (f : Field) (ts : List Token)
    (pairs : List (Node × Node)) : flowPairs (fuel + 5) false (.flowEntry :: f.tokens ++ ts) pairs =
      flowPairs (fuel + 4) false ts (f.pair :: pairs) := rfl

/-- The fields behind the first one of a row. -/
theorem flowPairs_fields {fs : List Field} {fuel : Nat}
    (hFuel : (fs.flatMap fun f => .flowEntry :: f.tokens).length < fuel) (ts : List Token)
    (pairs : List (Node × Node)) :
    flowPairs fuel false ((fs.flatMap fun f => .flowEntry :: f.tokens) ++ .flowMappingEnd :: ts)
      pairs = some (.mapping (pairs.reverse ++ fs.map Field.pair), ts) := by
  induction fs generalizing fuel pairs with
  | nil =>
      obtain ⟨fuel, rfl⟩ : ∃ k, fuel = k + 1 := ⟨fuel - 1, by omega⟩
      rw [List.map_nil, List.append_nil]
      rfl
  | cons f fs ih =>
      rw [List.flatMap_cons, List.length_append, List.length_cons,
        show f.tokens.length = 4 from rfl] at hFuel
      obtain ⟨fuel, rfl⟩ : ∃ k, fuel = k + 5 := ⟨fuel - 5, by omega⟩
      rw [List.flatMap_cons, List.append_assoc, flowPairs_next, ih (by omega)]
      simp

/-- A row as an item of a block sequence. -/
theorem blockItems_row {row : Field × List Field} {fuel : Nat}
    (hFuel : (Content.rowTokens row).length ≤ fuel) (ts : List Token) (items : List Node) :
    blockItems (fuel + 1) (Content.rowTokens row ++ ts) items =
      blockItems fuel ts (Content.rowNode row :: items) := by
  have hLength : (Content.rowTokens row).length =
      7 + (row.2.flatMap fun f => .flowEntry :: f.tokens).length := by
    simp [Content.rowTokens, Field.tokens, keyTokens]
    omega
  obtain ⟨fuel, rfl⟩ : ∃ k, fuel = k + 7 := ⟨fuel - 7, by omega⟩
  have hText : Content.rowTokens row ++ ts = .blockEntry :: .flowMappingStart :: (row.1.tokens ++
      ((row.2.flatMap fun f => .flowEntry :: f.tokens) ++ .flowMappingEnd :: ts)) := by
    simp [Content.rowTokens]
  have hFields := flowPairs_first fuel row.1
    ((row.2.flatMap fun f => .flowEntry :: f.tokens) ++ .flowMappingEnd :: ts)
  rw [flowPairs_fields (by omega)] at hFields
  have hItem (rest : List Token) :
      blockItems (fuel + 8) (.blockEntry :: .flowMappingStart :: rest) items =
        match flowPairs (fuel + 5) true rest [] with
        | some (item, ts) => blockItems (fuel + 7) ts (item :: items)
        | none => none := rfl
  rw [hText, hItem, hFields]
  rfl

theorem blockItems_rows {rs : List (Field × List Field)} {fuel : Nat}
    (hFuel : (rs.flatMap Content.rowTokens).length < fuel) (ts : List Token) (items : List Node) :
    blockItems fuel (rs.flatMap Content.rowTokens ++ .blockEnd :: ts) items =
      some (.sequence (items.reverse ++ rs.map Content.rowNode), ts) := by
  induction rs generalizing fuel items with
  | nil =>
      obtain ⟨fuel, rfl⟩ : ∃ k, fuel = k + 1 := ⟨fuel - 1, by omega⟩
      rw [List.map_nil, List.append_nil]
      rfl
  | cons row rs ih =>
      rw [List.flatMap_cons, List.length_append] at hFuel
      obtain ⟨fuel, rfl⟩ : ∃ k, fuel = k + 1 := ⟨fuel - 1, by omega⟩
      have hSome : 0 < (Content.rowTokens row).length := Nat.succ_pos _
      rw [List.flatMap_cons, List.append_assoc, blockItems_row (by omega), ih (by omega)]
      simp

/-! ## Entries -/

/-- Whether tokens start as they may behind the value of a pair. -/
def EndsPair (ts : List Token) : Prop := missingBefore pairFollowers ts = true

/-- **What belongs to a heading.** -/
theorem parseOr_content {content : Content} {fuel : Nat} (hFuel : content.tokens.length + 2 ≤ fuel)
    {ts : List Token} (hEnds : EndsPair ts) :
    parseOr fuel pairFollowers true true (content.tokens ++ ts) = some (content.node, ts) := by
  obtain ⟨fuel, rfl⟩ : ∃ k, fuel = k + 2 := ⟨fuel - 2, by omega⟩
  have hNone : parseOr (fuel + 2) pairFollowers true true ts = some (.empty, ts) := if_pos hEnds
  cases content with
  | word w => rfl
  | fields fs =>
      cases fs with
      | nil => exact hNone
      | cons f fs =>
          have hText : Content.tokens (.fields (f :: fs)) ++ ts = .blockMappingStart ::
              ((f :: fs).flatMap Field.tokens ++ .blockEnd :: ts) := by
            simp [Content.tokens]
          have hLess : ((f :: fs).flatMap Field.tokens).length < fuel := by
            simp only [Content.tokens, List.length_cons, List.length_append] at hFuel
            omega
          rw [hText]
          exact blockPairs_fields hLess ts []
  | rows rs =>
      cases rs with
      | nil => exact hNone
      | cons row rs =>
          have hText : Content.tokens (.rows (row :: rs)) ++ ts = .blockSequenceStart ::
              ((row :: rs).flatMap Content.rowTokens ++ .blockEnd :: ts) := by
            simp [Content.tokens]
          have hLess : ((row :: rs).flatMap Content.rowTokens).length < fuel := by
            simp only [Content.tokens, List.length_cons, List.length_append] at hFuel
            omega
          rw [hText]
          exact blockItems_rows hLess ts []

/-- The entries of a sheet. -/
theorem blockPairs_entries {sheet : Sheet} {fuel : Nat}
    (hFuel :
      (sheet.flatMap fun (name, content) => Sheet.entryTokens name content).length + 1 < fuel)
    (pairs : List (Node × Node)) :
    blockPairs fuel
        ((sheet.flatMap fun (name, content) => Sheet.entryTokens name content) ++ [.blockEnd])
        pairs =
      some (.mapping (pairs.reverse ++
        sheet.map fun (name, content) => (.scalar true name, content.node)), []) := by
  induction sheet generalizing fuel pairs with
  | nil =>
      obtain ⟨fuel, rfl⟩ : ∃ k, fuel = k + 1 := ⟨fuel - 1, by omega⟩
      rw [List.map_nil, List.append_nil]
      rfl
  | cons entry sheet ih =>
      obtain ⟨name, content⟩ := entry
      have hLength : (Sheet.entryTokens name content).length = content.tokens.length + 3 := by
        simp [Sheet.entryTokens, keyTokens]
      rw [List.flatMap_cons, List.length_append, hLength] at hFuel
      obtain ⟨fuel, rfl⟩ : ∃ k, fuel = k + 4 := ⟨fuel - 4, by omega⟩
      have hEnds : EndsPair
          ((sheet.flatMap fun (name, content) => Sheet.entryTokens name content) ++
            [.blockEnd]) := by
        cases sheet with
        | nil => rfl
        | cons next sheet => rfl
      have hText : (((name, content) :: sheet).flatMap fun (name, content) =>
          Sheet.entryTokens name content) ++ [.blockEnd] = keyTokens name ++ (content.tokens ++
            ((sheet.flatMap fun (name, content) => Sheet.entryTokens name content) ++
              [.blockEnd])) := by
        simp [Sheet.entryTokens]
      rw [hText, blockPairs_key, parseOr_content (by omega) hEnds]
      exact (ih (by omega) _).trans (by simp)

end Node

/-- **The tokens of a sheet are put together to its tree.** -/
theorem Sheet.ofTokens?_tokens (sheet : Sheet) : Node.ofTokens? sheet.tokens = some sheet.node := by
  cases sheet with
  | nil => rfl
  | cons entry sheet =>
      have hFuel : ((entry :: sheet).flatMap fun (name, content) =>
          entryTokens name content).length + 1 <
            4 * (Sheet.tokens (entry :: sheet)).length + 3 := by
        simp only [Sheet.tokens, List.length_cons, List.length_append]
        omega
      have hDocument : Node.ofDocument? (4 * (Sheet.tokens (entry :: sheet)).length + 4)
          (Sheet.tokens (entry :: sheet)) = some (Sheet.node (entry :: sheet), []) :=
        Node.blockPairs_entries hFuel []
      rw [Node.ofTokens?, hDocument]
      rfl

end Chip8.Yaml
