import Chip8.Proofs.Layout.Steps

/-!
# Cutting a sheet into tokens

The lexer is taken through a sheet line by line. Between lines it stands at the start of
one, outside braces, with certain block collections open. A heading opens the mapping of
the sheet if it is the first one; the first line below a heading opens a collection of its
own, and the next heading closes it again.

A line reads as certain tokens if, from a lexer at its start, the lexer is led to the
start of the line behind it with these tokens added. Reading composes along the lines of
a sheet, as its text and its tokens do.

## Main results

* `Lexer.reads_fields`, `Lexer.reads_rows` — the lines below a heading.
* `Lexer.reads_entry` — a heading with what belongs to it.
* `Lexer.run_sheet` — the lexer on the text of a sheet.
* `Sheet.ofText?_text` — a sheet is cut into its tokens.
-/

namespace Chip8.Yaml

namespace Lexer

/-! ## Lines -/

/-- A line outside flow collections, where a key may start. -/
structure AtLine (lines : List Char) (ts : List Token) (blocks : List Nat) (l : Lexer) : Prop where
  rest : l.cursor.rest = lines
  column : l.column = 0
  tokens : l.tokens = ts.toArray
  indents : l.indents = blocks
  outside : l.outer = []
  keyAllowed : l.keyAllowed = true
  idle : Idle l.candidate

/-- The place behind the colon of a key outside flow collections. -/
structure AfterKey (tail : List Char) (ts : List Token) (blocks : List Nat) (l : Lexer) : Prop where
  rest : l.cursor.rest = tail
  tokens : l.tokens = ts.toArray
  indents : l.indents = blocks
  outside : l.outer = []
  within : ∀ indent ∈ blocks, indent ≤ l.column
  keyAllowed : l.keyAllowed = false
  candidate : l.candidate = none

/-- What a token at a column does to the open block collections: it opens one, or belongs to the one
that is open there. -/
inductive Opens (column : Nat) (start : Token) : List Nat → List Token → List Nat → Prop where
  | opened {indents : List Nat} (h : ∀ indent ∈ indents.head?, indent < column) :
      Opens column start indents [start] (column :: indents)
  | stays {indents : List Nat} : Opens column start (column :: indents) [] (column :: indents)

theorem Opens.eq {l : Lexer} {column : Nat} {start : Token} {opened : List Token}
    {after : List Nat} (h : Opens column start l.indents opened after) (hOutside : l.outer = []) :
    l.opening column start = opened ∧ l.indentsFrom column = after := by
  obtain ⟨cursor, tokens, indents, keyAllowed, candidate, outer⟩ := l
  obtain rfl : outer = [] := hOutside
  cases h with
  | opened h =>
      cases indents with
      | nil => simp [opening, indentsFrom, opens, inFlow, contentColumn]
      | cons indent indents =>
          have hLess : indent + 1 ≤ column := h indent rfl
          simp [opening, indentsFrom, opens, inFlow, contentColumn, hLess]
  | stays =>
      have hOver : ¬ column + 1 ≤ column := Nat.not_succ_le_self column
      simp [opening, indentsFrom, opens, inFlow, contentColumn, hOver]

/-- No token is less far in than the block collections around it. -/
theorem Opens.within {column : Nat} {start : Token} {opened : List Token} {before after : List Nat}
    (h : Opens column start before opened after) (hBefore : ∀ indent ∈ before, indent ≤ column) :
    ∀ indent ∈ after, indent ≤ column := by
  cases h with
  | opened _ => exact List.forall_mem_cons.2 ⟨Nat.le_refl _, hBefore⟩
  | stays => exact hBefore

/-- The place behind the blanks of a line. -/
theorem AtLine.indented {l : Lexer} {lines rest : List Char} {ts : List Token} {blocks : List Nat}
    {count : Nat} (h : AtLine lines ts blocks l) (hLines : lines = blanks count ++ rest)
    (hWithin : ∀ indent ∈ blocks, indent ≤ count) :
    Leads l (l.pastBlanks count rest) ∧ (l.pastBlanks count rest).column = count ∧
      (l.pastBlanks count rest).Within (l.pastBlanks count rest).column := by
  have hColumn : (l.pastBlanks count rest).column = count := by
    rw [column_pastBlanks, h.column, Nat.zero_add]
  refine ⟨leads_blanks (h.rest.trans hLines), hColumn, ?_⟩
  rw [hColumn]
  exact Or.inr fun indent hMem => hWithin indent (h.indents ▸ hMem)

/-- A key on a line of its own. -/
theorem AtLine.key {l : Lexer} {ts opened : List Token} {count : Nat} {name tail : List Char}
    {before after : List Nat} (h : AtLine (blanks count ++ (name ++ ':' :: tail)) ts before l)
    (hName : IsName name) (hGap : atGap tail = true) (hFlow : atFlowIndicator tail = false)
    (hWithin : ∀ indent ∈ before, indent ≤ count)
    (hOpens : Opens count .blockMappingStart before opened after) :
    ∃ m, Leads l m ∧ AfterKey tail (ts ++ (opened ++ keyTokens name)) after m := by
  obtain ⟨hBlanks, hColumn, hIn⟩ := h.indented rfl hWithin
  let ready := l.pastBlanks count (name ++ ':' :: tail)
  obtain ⟨hOpened, hAfter⟩ := Opens.eq (l := ready) (h.indents.symm ▸ hOpens) h.outside
  have hLeads := leads_name (l := ready) hName rfl hGap hFlow h.tokens hIn h.keyAllowed h.idle
  rw [hColumn, hOpened, hAfter] at hLeads
  refine ⟨_, hBlanks.trans hLeads, rfl, rfl, rfl, h.outside, fun indent hMem => ?_, rfl, rfl⟩
  have hLess := hOpens.within hWithin indent hMem
  have hReady : ready.column = count := hColumn
  have hPlace := Place.past_eq (fun c hc => isBreak_of_word (hName.chars c hc)) ready.cursor.place
  show indent ≤ ((ready.cursor.place.past name).step ':').column
  rw [hPlace]
  show indent ≤ ready.column + name.length + 1
  omega

/-- A text whose first line is less far in than a limit. -/
def StartsBefore (limit : Nat) (lines : List Char) : Prop :=
  ∃ count rest, count < limit ∧ lines = blanks count ++ rest ∧ StartsSolid rest

/-- **A word behind a colon** ends its line. -/
theorem AfterKey.word {l : Lexer} {ts : List Token} {word lines : List Char} {column : Nat}
    {blocks : List Nat} (h : AfterKey (' ' :: (word ++ '\n' :: lines)) ts (column :: blocks) l)
    (hWord : IsWord word) (hBefore : StartsBefore (column + 1) lines) :
    ∃ m, Leads l m ∧ AtLine lines (ts ++ [.scalar true word]) (column :: blocks) m := by
  obtain ⟨count, rest, hCount, rfl, hSolid⟩ := hBefore
  have hFirst : l.cursor.rest = blanks 1 ++ (word ++ '\n' :: (blanks count ++ rest)) := h.rest
  let ready := l.pastBlanks 1 (word ++ '\n' :: (blanks count ++ rest))
  have hIn : ready.Within ready.column := by
    rw [column_pastBlanks]
    exact Or.inr fun indent hMem => Nat.le_succ_of_le (h.within indent (h.indents ▸ hMem))
  have hFlow : ready.inFlow = false := inFlow_of_outside h.outside
  have hLimit : ready.contentColumn = column + 1 := by
    rw [contentColumn, show ready.indents = column :: blocks from h.indents]
  have hScalar := plainScalar_line hWord hSolid hCount ready.cursor.place
  rw [← hFlow, ← hLimit] at hScalar
  have hPlain := plain_of_scalar (saveCandidate_of_not_allowed (l := ready) h.keyAllowed) hScalar
  let later : Place := (ready.cursor.place.past word).step '\n'
  let m : Lexer := { ready with
    cursor := { rest := blanks count ++ rest, place := later }
    tokens := l.tokens.push (.scalar true word)
    keyAllowed := true }
  have hSame : m.settle = Lexer.settle { m with
      cursor := { rest, place := later.past (blanks count) } } :=
    settle_of_skipped (skipSpace_blanks ..)
  have hLeads : Leads ready m := leads_of_plain hWord rfl hIn hPlain hSame.symm (by simp [m])
  refine ⟨m, (leads_blanks hFirst).trans hLeads, rfl, rfl, ?_, h.indents, h.outside, rfl, ?_⟩
  · simp [m, h.tokens]
  · show Idle l.candidate
    exact h.candidate ▸ idle_none

/-- A line that is less far in closes the innermost block collection. -/
theorem AtLine.close {l : Lexer} {lines : List Char} {ts : List Token} {column : Nat}
    (h : AtLine lines ts [column + 1, 0] l) (hSolid : StartsSolid lines) :
    ∃ m, Leads l m ∧ AtLine lines (ts ++ [.blockEnd]) [0] m := by
  let m : Lexer := { l with tokens := (ts ++ [Token.blockEnd]).toArray, indents := [0] }
  have hMore : m.settle = m :=
    settle_of_solid (h.rest ▸ hSolid)
      (Or.inr fun indent hMem => by rw [List.mem_singleton.1 hMem]; exact Nat.zero_le _)
  have hSettle : l.settle = m := by
    rw [settle_of_skip (skipSpace_solid _ _ (h.rest ▸ hSolid) _)]
    show l.unindent = m
    rw [unindent, if_neg (by simp [inFlow_of_outside h.outside]), h.column, h.indents]
    simp [closeBlocks, deeperThan, h.indents, h.tokens, m]
  refine ⟨m, leads_of_settle (hSettle.trans hMore.symm) (Nat.le_refl _), h.rest, h.column, rfl, rfl,
    h.outside, h.keyAllowed, h.idle⟩

/-- At the end of the text the last block collection is closed. -/
theorem AtLine.finish {l : Lexer} {ts : List Token} (h : AtLine [] ts [0] l) :
    l.settle.cursor.rest = [] ∧
      l.settle.closeAll.dropCandidate.map Lexer.tokens = some (ts ++ [Token.blockEnd]).toArray := by
  have hSettled : l.settle = l :=
    settle_of_solid (by rw [h.rest]; rintro c ⟨⟩) (Or.inr (by rw [h.indents]; simp))
  rw [hSettled]
  refine ⟨h.rest, ?_⟩
  rw [closeAll, if_neg (by simp [inFlow_of_outside h.outside]), h.indents,
    dropCandidate_of_idle (show Idle (l.closeBlocks _).candidate from h.idle)]
  simp [closeBlocks, h.tokens]

/-! ## Lines of a sheet -/

/-- Lines are read as tokens in front of others, and change the open block collections. -/
def Reads (text : List Char) (new : List Token) (before after : List Nat) (lines : List Char) :
    Prop :=
  ∀ (l : Lexer) (ts : List Token), AtLine (text ++ lines) ts before l →
    ∃ m, Leads l m ∧ AtLine lines (ts ++ new) after m

theorem Reads.nil (blocks : List Nat) (lines : List Char) : Reads [] [] blocks blocks lines :=
  fun l ts h => ⟨l, .refl l, by simpa using h⟩

theorem Reads.append {text later lines : List Char} {new newer : List Token}
    {before between after : List Nat} (hFirst : Reads text new before between (later ++ lines))
    (hThen : Reads later newer between after lines) :
    Reads (text ++ later) (new ++ newer) before after lines := by
  intro l ts h
  rw [List.append_assoc] at h
  obtain ⟨m, hLeads, hLine⟩ := hFirst l ts h
  obtain ⟨n, hOn, hEnd⟩ := hThen m _ hLine
  rw [List.append_assoc] at hEnd
  exact ⟨n, hLeads.trans hOn, hEnd⟩

/-- The line of a field. -/
theorem reads_field {f : Field} (hField : f.WellFormed) {opened : List Token} {before : List Nat}
    (hWithin : ∀ indent ∈ before, indent ≤ 2)
    (hOpens : Opens 2 .blockMappingStart before opened [2, 0]) {lines : List Char}
    (hBefore : StartsBefore 3 lines) :
    Reads (Content.fieldLine f) (opened ++ f.tokens) before [2, 0] lines := by
  intro l ts h
  have hText : Content.fieldLine f ++ lines =
      blanks 2 ++ (f.1 ++ ':' :: ' ' :: (f.2 ++ '\n' :: lines)) := by
    simp [Content.fieldLine, Field.text, blanks, List.replicate]
  rw [hText] at h
  obtain ⟨colon, hKey, hColon⟩ := h.key hField.name rfl rfl hWithin hOpens
  obtain ⟨m, hWord, hLine⟩ := hColon.word hField.value hBefore
  refine ⟨m, hKey.trans hWord, ?_⟩
  rw [Field.tokens, ← List.append_assoc opened, ← List.append_assoc ts]
  exact hLine

private theorem startsBefore_fields {fs : List Field} (hFields : ∀ f ∈ fs, f.WellFormed)
    {lines : List Char}
    (hBefore : StartsBefore 3 lines) : StartsBefore 3 (fs.flatMap Content.fieldLine ++ lines) := by
  cases fs with
  | nil => exact hBefore
  | cons f fs =>
      refine ⟨2, f.1 ++ (':' :: ' ' :: f.2 ++ ['\n'] ++ fs.flatMap Content.fieldLine ++ lines),
        by decide, ?_, startsSolid_word (hFields f List.mem_cons_self).name.toIsWord _⟩
      simp [Content.fieldLine, Field.text, blanks, List.replicate]

theorem reads_fields {fs : List Field} (hFields : ∀ f ∈ fs, f.WellFormed) {lines : List Char}
    (hBefore : StartsBefore 3 lines) :
    Reads (fs.flatMap Content.fieldLine) (fs.flatMap Field.tokens) [2, 0] [2, 0] lines := by
  induction fs with
  | nil => exact .nil [2, 0] lines
  | cons f fs ih =>
      obtain ⟨hFirst, hRest⟩ := List.forall_mem_cons.1 hFields
      exact (reads_field hFirst (by decide) .stays (startsBefore_fields hRest hBefore)).append
        (ih hRest)

/-! ## Rows in braces -/

/-- A place in braces. -/
structure InBraces (tail : List Char) (ts : List Token) (blocks : List Nat) (key : Bool)
    (l : Lexer) : Prop where
  rest : l.cursor.rest = tail
  tokens : l.tokens = ts.toArray
  indents : l.indents = blocks
  keyAllowed : l.keyAllowed = key
  candidate : l.candidate = none
  outer : ∃ k, l.outer = [k] ∧ Idle k

theorem InBraces.inFlow {tail : List Char} {ts : List Token} {blocks : List Nat} {key : Bool}
    {l : Lexer} (h : InBraces tail ts blocks key l) : l.inFlow = true := by
  obtain ⟨k, hOuter, _⟩ := h.outer
  rw [Lexer.inFlow, hOuter]
  rfl

private theorem opening_of_inFlow {l : Lexer} (h : l.inFlow = true) (column : Nat) (start : Token) :
    l.opening column start = [] ∧ l.indentsFrom column = l.indents := by
  simp [opening, indentsFrom, opens, h]

/-- A key in braces. -/
theorem InBraces.key {l : Lexer} {ts : List Token} {name tail : List Char} {blocks : List Nat}
    (h : InBraces (' ' :: (name ++ ':' :: ' ' :: tail)) ts blocks true l) (hName : IsName name) :
    ∃ m, Leads l m ∧ InBraces (' ' :: tail) (ts ++ keyTokens name) blocks false m := by
  have hBlank : l.cursor.rest = blanks 1 ++ (name ++ ':' :: ' ' :: tail) := h.rest
  let ready := l.pastBlanks 1 (name ++ ':' :: ' ' :: tail)
  have hIdle : Idle ready.candidate := h.candidate.symm ▸ idle_none
  have hLeads :=
    leads_name (l := ready) hName rfl rfl rfl h.tokens (Or.inl h.inFlow) h.keyAllowed hIdle
  obtain ⟨hOpening, hIndents⟩ :=
    opening_of_inFlow (l := ready) h.inFlow ready.column .blockMappingStart
  rw [hOpening, hIndents, List.nil_append] at hLeads
  exact ⟨_, (leads_blanks hBlank).trans hLeads, rfl, rfl, h.indents, rfl, rfl, h.outer⟩

/-- What stands behind a field in braces. -/
inductive AfterField : List Char → Prop where
  | comma (rest : List Char) : AfterField (',' :: rest)
  | brace (rest : List Char) : AfterField (' ' :: '\x7d' :: rest)

/-- The word of a field ends at a comma, or in front of the blank before the brace. -/
theorem AfterField.plainScalar {tail : List Char} (h : AfterField tail) {word : List Char}
    (hWord : IsWord word) (limit : Nat) (p : Place) :
    ∃ cursor,
      plainScalar true limit { rest := word ++ tail, place := p } = some (word, false, cursor) ∧
      ∀ keyAllowed, skipSpace true tail (p.past word) false keyAllowed =
        skipSpace true cursor.rest cursor.place false keyAllowed := by
  cases h with
  | comma rest =>
      have hEnds : EndsRun true (',' :: rest) :=
        endsRun_indicator (by decide) (by decide) (by decide)
      exact ⟨_, plainScalar_mark hWord hEnds (by decide) limit p, fun _ => rfl⟩
  | brace rest => exact ⟨_, plainScalar_brace hWord rest limit p, fun _ => rfl⟩

/-- The word of a field in braces. -/
theorem InBraces.word {l : Lexer} {ts : List Token} {word tail : List Char} {blocks : List Nat}
    (h : InBraces (' ' :: (word ++ tail)) ts blocks false l) (hWord : IsWord word)
    (hAfter : AfterField tail) :
    ∃ m, Leads l m ∧ InBraces tail (ts ++ [.scalar true word]) blocks false m := by
  have hBlank : l.cursor.rest = blanks 1 ++ (word ++ tail) := h.rest
  let ready := l.pastBlanks 1 (word ++ tail)
  have hFlow : ready.inFlow = true := h.inFlow
  obtain ⟨cursor, hScalar, hSkip⟩ :=
    hAfter.plainScalar hWord ready.contentColumn ready.cursor.place
  rw [← hFlow] at hScalar
  have hPlain := plain_of_scalar (saveCandidate_of_not_allowed (l := ready) h.keyAllowed) hScalar
  let m : Lexer := { ready with
    cursor := { rest := tail, place := ready.cursor.place.past word }
    tokens := l.tokens.push (.scalar true word)
    keyAllowed := false }
  have hSame : m.settle = Lexer.settle { m with cursor } := by
    refine settle_of_skipped ?_
    rw [show m.inFlow = true from h.inFlow]
    exact hSkip _
  have hLeads : Leads ready m :=
    leads_of_plain hWord rfl (Or.inl hFlow) hPlain hSame.symm (Nat.le_refl _)
  refine ⟨m, (leads_blanks hBlank).trans hLeads, rfl, ?_, h.indents, rfl, h.candidate, h.outer⟩
  simp [m, h.tokens]

/-- **A field in braces.** -/
theorem InBraces.field {l : Lexer} {ts : List Token} {f : Field} {tail : List Char}
    {blocks : List Nat} (h : InBraces (f.text ++ tail) ts blocks true l) (hField : f.WellFormed)
    (hAfter : AfterField tail) :
    ∃ m, Leads l m ∧ InBraces tail (ts ++ f.tokens) blocks false m := by
  have hText : f.text ++ tail = ' ' :: (f.1 ++ ':' :: ' ' :: (f.2 ++ tail)) := by simp [Field.text]
  rw [hText] at h
  obtain ⟨colon, hKey, hColon⟩ := h.key hField.name
  obtain ⟨m, hWord, hEnd⟩ := hColon.word hField.value hAfter
  rw [List.append_assoc] at hEnd
  exact ⟨m, hKey.trans hWord, hEnd⟩

/-- The comma between fields in braces. -/
theorem InBraces.comma {l : Lexer} {ts : List Token} {tail : List Char} {blocks : List Nat}
    (h : InBraces (',' :: tail) ts blocks false l) :
    ∃ m, Leads l m ∧ InBraces tail (ts ++ [.flowEntry]) blocks true m := by
  have hNext : l.next ',' tail = l.flowEntry := by
    simp [next, startsMarker_at h.rest (by decide) (by decide)]
  rw [flowEntry_eq h.rest (h.candidate ▸ idle_none)] at hNext
  refine ⟨_, leads_of_mark h.rest (by decide) (Or.inl h.inFlow) hNext (Nat.le_refl _), rfl,
    ?_, h.indents, rfl, rfl, h.outer⟩
  simp [h.tokens]

/-- The closing brace, which ends its line. -/
theorem InBraces.close {l : Lexer} {ts : List Token} {lines : List Char} {blocks : List Nat}
    {key : Bool} (h : InBraces (' ' :: '\x7d' :: '\n' :: lines) ts blocks key l) :
    ∃ m, Leads l m ∧ AtLine lines (ts ++ [.flowMappingEnd]) blocks m := by
  have hBlank : l.cursor.rest = blanks 1 ++ ('\x7d' :: '\n' :: lines) := h.rest
  let ready := l.pastBlanks 1 ('\x7d' :: '\n' :: lines)
  have hRest : ready.cursor.rest = '\x7d' :: '\n' :: lines := rfl
  have hNext : ready.next '\x7d' ('\n' :: lines) = ready.flowEnd .flowMappingEnd := by
    simp [next, startsMarker_at hRest (by decide) (by decide)]
  rw [flowEnd_eq hRest (show Idle ready.candidate from h.candidate ▸ idle_none)] at hNext
  obtain ⟨k, hOuter, hIdle⟩ := h.outer
  have hEnd := leads_of_mark hRest (by decide) (Or.inl h.inFlow) hNext (Nat.le_refl _)
  have hLine := ((leads_blanks hBlank).trans hEnd).trans
    (leads_newline rfl (by simp [ready, hOuter]))
  refine ⟨_, hLine, rfl, rfl, ?_, h.indents, ?_, rfl, ?_⟩
  · simp [ready, h.tokens]
  · simp [ready, hOuter]
  · simpa [ready, hOuter] using hIdle

/-- The fields behind the first one. -/
theorem InBraces.fields {ts : List Token} {fs : List Field} {tail : List Char} {blocks : List Nat}
    (hFields : ∀ f ∈ fs, f.WellFormed) {l : Lexer}
    (h : InBraces
      ((fs.flatMap fun f => ',' :: f.text) ++ ' ' :: '\x7d' :: tail) ts blocks false l) :
    ∃ m, Leads l m ∧ InBraces (' ' :: '\x7d' :: tail)
      (ts ++ fs.flatMap fun f => .flowEntry :: f.tokens) blocks false m := by
  induction fs generalizing l ts with
  | nil => exact ⟨l, .refl l, by simpa using h⟩
  | cons f fs ih =>
      obtain ⟨hFirst, hRest⟩ := List.forall_mem_cons.1 hFields
      have hAfter : AfterField ((fs.flatMap fun f => ',' :: f.text) ++ ' ' :: '\x7d' :: tail) := by
        cases fs with
        | nil => exact .brace tail
        | cons g fs => exact .comma _
      rw [List.flatMap_cons, List.cons_append, List.cons_append, List.append_assoc] at h
      obtain ⟨afterComma, hComma, hField⟩ := h.comma
      obtain ⟨afterField, hThen, hMore⟩ := hField.field hFirst hAfter
      obtain ⟨m, hLast, hEnd⟩ := ih hRest hMore
      refine ⟨m, hComma.trans (hThen.trans hLast), ?_⟩
      simpa using hEnd

/-- The place behind the dash of a row. -/
structure AfterDash (tail : List Char) (ts : List Token) (l : Lexer) : Prop where
  rest : l.cursor.rest = tail
  column : l.column = 3
  tokens : l.tokens = ts.toArray
  indents : l.indents = [2, 0]
  outside : l.outer = []
  keyAllowed : l.keyAllowed = true
  candidate : l.candidate = none

/-- The dash of a row. -/
theorem AtLine.dash {l : Lexer} {tail : List Char} {ts opened : List Token} {before : List Nat}
    (h : AtLine (blanks 2 ++ '-' :: ' ' :: tail) ts before l)
    (hWithin : ∀ indent ∈ before, indent ≤ 2)
    (hOpens : Opens 2 .blockSequenceStart before opened [2, 0]) :
    ∃ m, Leads l m ∧ AfterDash (' ' :: tail) (ts ++ (opened ++ [.blockEntry])) m := by
  obtain ⟨hBlanks, hColumn, hIn⟩ := h.indented rfl hWithin
  let atDash := l.pastBlanks 2 ('-' :: ' ' :: tail)
  have hRest : atDash.cursor.rest = '-' :: ' ' :: tail := rfl
  have hDash : atDash.cursor.startsMarker '-' = false := by
    have hPlace : atDash.cursor.place.column = 2 := hColumn
    simp [Cursor.startsMarker, hPlace]
  have hDot : atDash.cursor.startsMarker '.' = false := startsMarker_of_ne (by decide) ..
  have hGap : atGap (' ' :: tail) = true := rfl
  have hNext : atDash.next '-' (' ' :: tail) = atDash.blockEntry := by
    simp [next, hDash, hDot, hGap]
  obtain ⟨hOpened, hAfter⟩ := Opens.eq (l := atDash) (h.indents.symm ▸ hOpens) h.outside
  have hTokens : atDash.tokens = (ts ++ []).toArray := by simp [atDash, h.tokens]
  rw [blockEntry_eq hRest hTokens h.keyAllowed h.idle, hColumn, hOpened, hAfter] at hNext
  have hEntry := leads_of_mark hRest (by decide) hIn hNext (Nat.le_refl _)
  refine ⟨_, hBlanks.trans hEntry, rfl, ?_, rfl, rfl, h.outside, rfl, rfl⟩
  exact congrArg (· + 1) hColumn

/-- The opening brace of a row. -/
theorem AfterDash.brace {l : Lexer} {tail : List Char} {ts : List Token}
    (h : AfterDash (' ' :: '\x7b' :: tail) ts l) :
    ∃ m, Leads l m ∧ InBraces tail (ts ++ [.flowMappingStart]) [2, 0] true m := by
  have hBlank : l.cursor.rest = blanks 1 ++ '\x7b' :: tail := h.rest
  let atBrace := l.pastBlanks 1 ('\x7b' :: tail)
  have hRest : atBrace.cursor.rest = '\x7b' :: tail := rfl
  have hColumn : atBrace.column = 4 := by rw [column_pastBlanks, h.column]
  have hNext : atBrace.next '\x7b' tail = atBrace.flowStart .flowMappingStart := by
    simp [next, startsMarker_at hRest (by decide) (by decide)]
  have hIndents : atBrace.indents = [2, 0] := h.indents
  obtain ⟨k, hIdle, hStart⟩ := flowStart_eq hRest h.keyAllowed
    (show Idle atBrace.candidate from h.candidate ▸ idle_none)
    (by rw [hColumn, hIndents]; rintro indent ⟨⟩; decide) .flowMappingStart
  have hIn : atBrace.Within atBrace.column := by
    rw [hColumn]
    refine Or.inr ?_
    rw [hIndents]
    decide
  rw [hStart] at hNext
  have hBrace := leads_of_mark hRest (by decide) hIn hNext (Nat.le_refl _)
  refine ⟨_, (leads_blanks hBlank).trans hBrace, rfl, ?_, h.indents, rfl, rfl, k, ?_, hIdle⟩
  · simp [atBrace, h.tokens]
  · exact congrArg (k :: ·) h.outside

/-- The line of a row. -/
theorem reads_row {row : Field × List Field} (hFirst : row.1.WellFormed)
    (hFields : ∀ f ∈ row.2, f.WellFormed) {opened : List Token} {before : List Nat}
    (hWithin : ∀ indent ∈ before, indent ≤ 2)
    (hOpens : Opens 2 .blockSequenceStart before opened [2, 0]) (lines : List Char) :
    Reads (Content.rowLine row) (opened ++ Content.rowTokens row) before [2, 0] lines := by
  intro l ts h
  have hText : Content.rowLine row ++ lines = blanks 2 ++ '-' :: ' ' :: '\x7b' ::
      (row.1.text ++
        ((row.2.flatMap fun f => ',' :: f.text) ++ ' ' :: '\x7d' :: '\n' :: lines)) := by
    simp [Content.rowLine, blanks, List.replicate]
  have hAfter : AfterField ((row.2.flatMap fun f => ',' :: f.text) ++
      ' ' :: '\x7d' :: '\n' :: lines) := by
    cases row.2 with
    | nil => exact .brace _
    | cons f fs => exact .comma _
  rw [hText] at h
  obtain ⟨afterDash, hDash, hBrace⟩ := h.dash hWithin hOpens
  obtain ⟨inBraces, hOpen, hField⟩ := hBrace.brace
  obtain ⟨afterFirst, hOne, hMore⟩ := hField.field hFirst hAfter
  obtain ⟨afterLast, hAll, hEnd⟩ := hMore.fields hFields
  obtain ⟨m, hClose, hLine⟩ := hEnd.close
  refine ⟨m, hDash.trans (hOpen.trans (hOne.trans (hAll.trans hClose))), ?_⟩
  simpa [Content.rowTokens] using hLine

theorem reads_rows {rs : List (Field × List Field)}
    (hRows : ∀ row ∈ rs, row.1.WellFormed ∧ ∀ f ∈ row.2, f.WellFormed) (lines : List Char) :
    Reads (rs.flatMap Content.rowLine) (rs.flatMap Content.rowTokens) [2, 0] [2, 0] lines := by
  induction rs with
  | nil => exact .nil [2, 0] lines
  | cons row rs ih =>
      obtain ⟨hRow, hRest⟩ := List.forall_mem_cons.1 hRows
      exact (reads_row hRow.1 hRow.2 (by decide) .stays _).append (ih hRest)

/-! ## Entries -/

private theorem StartsBefore.of_solid {lines : List Char} (h : StartsSolid lines) {limit : Nat}
    (hLimit : 0 < limit) : StartsBefore limit lines :=
  ⟨0, lines, hLimit, rfl, h⟩

/-- The end of the lines below a heading. -/
theorem Reads.close {text lines : List Char} {new : List Token} {before : List Nat}
    (h : Reads text new before [2, 0] lines) (hSolid : StartsSolid lines) :
    Reads text (new ++ [.blockEnd]) before [0] lines := by
  intro l ts hStart
  obtain ⟨m, hLeads, hLine⟩ := h l ts hStart
  obtain ⟨n, hOn, hEnd⟩ := hLine.close hSolid
  rw [List.append_assoc] at hEnd
  exact ⟨n, hLeads.trans hOn, hEnd⟩

/-- A heading with a word on its line. -/
theorem reads_wordEntry {name word : List Char} (hName : IsName name) (hWord : IsWord word)
    {opened : List Token} {before : List Nat} (hWithin : ∀ indent ∈ before, indent ≤ 0)
    (hOpens : Opens 0 .blockMappingStart before opened [0]) {lines : List Char}
    (hSolid : StartsSolid lines) :
    Reads (name ++ ':' :: ' ' :: word ++ ['\n']) (opened ++ (keyTokens name ++ [.scalar true word]))
      before [0] lines := by
  intro l ts h
  have hText : name ++ ':' :: ' ' :: word ++ ['\n'] ++ lines =
      blanks 0 ++ (name ++ ':' :: ' ' :: (word ++ '\n' :: lines)) := by
    simp [blanks]
  rw [hText] at h
  obtain ⟨colon, hKey, hColon⟩ := h.key hName rfl rfl hWithin hOpens
  obtain ⟨m, hEnd, hLine⟩ := hColon.word hWord (.of_solid hSolid Nat.zero_lt_one)
  refine ⟨m, hKey.trans hEnd, ?_⟩
  simpa using hLine

/-- A heading with lines below it. -/
theorem reads_heading {name : List Char} (hName : IsName name) {opened : List Token}
    {before : List Nat} (hWithin : ∀ indent ∈ before, indent ≤ 0)
    (hOpens : Opens 0 .blockMappingStart before opened [0]) (lines : List Char) :
    Reads (name ++ [':', '\n']) (opened ++ keyTokens name) before [0] lines := by
  intro l ts h
  have hText : name ++ [':', '\n'] ++ lines = blanks 0 ++ (name ++ ':' :: '\n' :: lines) := by
    simp [blanks]
  rw [hText] at h
  obtain ⟨colon, hKey, hColon⟩ := h.key hName rfl rfl hWithin hOpens
  refine ⟨_, hKey.trans (leads_newline hColon.rest hColon.outside), rfl, rfl, hColon.tokens,
    hColon.indents, hColon.outside, rfl, ?_⟩
  exact hColon.candidate ▸ idle_none

/-- The lines below a heading. -/
theorem reads_below {content : Content} (hContent : content.WellFormed) {below : List Char}
    (hBelow : content.text = '\n' :: below) {lines : List Char} (hSolid : StartsSolid lines) :
    Reads below content.tokens [0] [0] lines := by
  cases content with
  | word w => cases hBelow
  | fields fs =>
      obtain rfl : below = fs.flatMap Content.fieldLine := (List.cons.inj hBelow).2.symm
      cases fs with
      | nil => exact .nil [0] lines
      | cons f fs =>
          obtain ⟨hFirst, hRest⟩ := List.forall_mem_cons.1 hContent
          have hBefore : StartsBefore 3 lines := .of_solid hSolid (by decide)
          have hLines := (reads_field hFirst (by decide) (.opened (by simp))
            (startsBefore_fields hRest hBefore)).append (reads_fields hRest hBefore)
          simpa [Content.tokens] using hLines.close hSolid
  | rows rs =>
      obtain rfl : below = rs.flatMap Content.rowLine := (List.cons.inj hBelow).2.symm
      cases rs with
      | nil => exact .nil [0] lines
      | cons row rs =>
          obtain ⟨hRow, hRest⟩ := List.forall_mem_cons.1 hContent
          have hLines := (reads_row hRow.1 hRow.2 (by decide) (.opened (by simp)) _).append
            (reads_rows hRest lines)
          simpa [Content.tokens] using hLines.close hSolid

/-- **An entry of a sheet.** -/
theorem reads_entry {name : List Char} {content : Content} (hName : IsName name)
    (hContent : content.WellFormed) {opened : List Token} {before : List Nat}
    (hWithin : ∀ indent ∈ before, indent ≤ 0)
    (hOpens : Opens 0 .blockMappingStart before opened [0]) {lines : List Char}
    (hSolid : StartsSolid lines) :
    Reads (name ++ ':' :: content.text) (opened ++ Sheet.entryTokens name content) before [0]
      lines := by
  have hNested {below : List Char} (hBelow : content.text = '\n' :: below) :
      Reads (name ++ ':' :: content.text) (opened ++ Sheet.entryTokens name content) before [0]
        lines := by
    have hBoth := (reads_heading hName hWithin hOpens (below ++ lines)).append
      (reads_below hContent hBelow hSolid)
    rw [hBelow]
    simpa [Sheet.entryTokens] using hBoth
  cases content with
  | word w =>
      have hLine := reads_wordEntry hName hContent hWithin hOpens hSolid
      simpa [Sheet.entryTokens, Content.text, Content.tokens] using hLine
  | fields fs => exact hNested rfl
  | rows rs => exact hNested rfl

private theorem startsSolid_sheet {sheet : Sheet} (hSheet : sheet.WellFormed) :
    StartsSolid (sheet.text ++ []) := by
  cases sheet with
  | nil => exact fun _ h => nomatch h
  | cons entry sheet =>
      have hName := (hSheet entry List.mem_cons_self).1.toIsWord
      rw [Sheet.text, List.flatMap_cons, List.append_assoc, List.append_assoc]
      exact startsSolid_word hName _

/-- The entries behind the first one. -/
theorem reads_entries {sheet : Sheet} (hSheet : sheet.WellFormed) :
    Reads sheet.text (sheet.flatMap fun (name, content) => Sheet.entryTokens name content) [0] [0]
      [] := by
  induction sheet with
  | nil => exact .nil [0] []
  | cons entry sheet ih =>
      obtain ⟨⟨hName, hContent⟩, hRest⟩ := List.forall_mem_cons.1 hSheet
      exact (reads_entry hName hContent (by decide) .stays (startsSolid_sheet hRest)).append
        (ih hRest)

/-- **The tokens of a sheet.** -/
theorem run_sheet {sheet : Sheet} (hSheet : sheet.WellFormed) :
    (run (sheet.text.length + 1) { cursor := { rest := sheet.text } }).map Array.toList =
      some sheet.tokens := by
  cases sheet with
  | nil => rfl
  | cons entry sheet =>
      obtain ⟨⟨hName, hContent⟩, hRest⟩ := List.forall_mem_cons.1 hSheet
      have hFirst := reads_entry hName hContent (by decide) (.opened (by simp))
        (startsSolid_sheet hRest)
      let start : Lexer := { cursor := { rest := Sheet.text (entry :: sheet) } }
      have hStart : AtLine (Sheet.text (entry :: sheet) ++ []) [] [] start :=
        ⟨by simp [start], rfl, rfl, rfl, rfl, rfl, idle_none⟩
      obtain ⟨m, hLeads, hEnd⟩ := (hFirst.append (reads_entries hRest)) start [] hStart
      obtain ⟨hOver, hTokens⟩ := hEnd.finish
      have hRun := (run_of_end hLeads hOver).trans hTokens
      rw [show run _ _ = _ from hRun]
      simp [Sheet.tokens]

end Lexer

/-! ## Whole texts -/

/-- The characters of sheets. -/
def sheetChars : List Char := wordChars ++ " \n:,-\x7b\x7d".toList

/-- There are no other characters in a text. -/
def Written (text : List Char) : Prop := ∀ c ∈ text, c ∈ sheetChars

namespace Written

@[simp] theorem nil : Written [] := fun _ h => (nomatch h)

@[simp] theorem cons {c : Char} {text : List Char} :
    Written (c :: text) ↔ c ∈ sheetChars ∧ Written text :=
  List.forall_mem_cons

@[simp] theorem append {text later : List Char} :
    Written (text ++ later) ↔ Written text ∧ Written later :=
  List.forall_mem_append

theorem flatMap {α : Type} {items : List α} {text : α → List Char}
    (h : ∀ item ∈ items, Written (text item)) : Written (items.flatMap text) := by
  intro c hc
  obtain ⟨item, hItem, hText⟩ := List.mem_flatMap.1 hc
  exact h item hItem c hText

theorem word {text : List Char} (h : IsWord text) : Written text :=
  fun c hc => List.mem_append_left _ (h.chars c hc)

private theorem field {f : Field} (h : f.WellFormed) : Written f.text := by
  have hMarks : ' ' ∈ sheetChars ∧ ':' ∈ sheetChars := by decide
  simp [Field.text, hMarks, word h.name.toIsWord, word h.value]

theorem content {content : Content} (h : content.WellFormed) : Written content.text := by
  have hMarks : ' ' ∈ sheetChars ∧ '\n' ∈ sheetChars ∧ ',' ∈ sheetChars ∧ '-' ∈ sheetChars ∧
      '\x7b' ∈ sheetChars ∧ '\x7d' ∈ sheetChars := by decide
  cases content with
  | word w => simp [Content.text, hMarks, word h]
  | fields fs =>
      rw [Content.text, cons]
      refine ⟨hMarks.2.1, flatMap fun f hMem => ?_⟩
      simp [Content.fieldLine, hMarks, field (h f hMem)]
  | rows rs =>
      rw [Content.text, cons]
      refine ⟨hMarks.2.1, flatMap fun row hMem => ?_⟩
      obtain ⟨hFirst, hRest⟩ := h row hMem
      have hMore : Written (row.2.flatMap fun f => ',' :: f.text) :=
        flatMap fun f hField => by simp [hMarks, field (hRest f hField)]
      simp [Content.rowLine, hMarks, field hFirst, hMore]

theorem sheet {sheet : Sheet} (h : sheet.WellFormed) : Written sheet.text := by
  have hColon : ':' ∈ sheetChars := by decide
  refine flatMap fun entry hMem => ?_
  obtain ⟨hName, hContent⟩ := h entry hMem
  simp [hColon, word hName.toIsWord, content hContent]

/-- Such a text has its breaks in the one form already. -/
theorem normalizeBreaks {text : List Char} (h : Written text) : normalizeBreaks text = text := by
  induction text with
  | nil => rfl
  | cons c text ih =>
      obtain ⟨hMem, hRest⟩ := cons.1 h
      have hOther : sheetChars.all (fun c => c != '\r' && c != '\u0085') = true := by decide
      obtain ⟨hReturn, hNext⟩ : c ≠ '\r' ∧ c ≠ '\u0085' := by
        simpa using List.all_eq_true.1 hOther c hMem
      rw [Yaml.normalizeBreaks, ih hRest]
      · rintro rest rfl
        exact absurd rfl hReturn
      · exact hReturn
      · exact hNext

theorem dropMark {text : List Char} (h : Written text) : dropMark text = text := by
  cases text with
  | nil => rfl
  | cons c text =>
      have hAll : sheetChars.all (· != '\uFEFF') = true := by decide
      have hOther : c ≠ '\uFEFF' := by
        simpa using List.all_eq_true.1 hAll c (cons.1 h).1
      unfold Yaml.dropMark
      split
      next hMark => exact absurd (List.cons.inj hMark).1 hOther
      next => rfl

theorem isAllowed {text : List Char} (h : Written text) : text.all isAllowed = true := by
  have hAll : sheetChars.all Yaml.isAllowed = true := by decide
  exact List.all_eq_true.2 fun c hc => List.all_eq_true.1 hAll c (h c hc)

end Written

/-- **A sheet is cut into its tokens.** -/
theorem Sheet.ofText?_text {sheet : Sheet} (hSheet : sheet.WellFormed) :
    Token.ofText? sheet.text = some sheet.tokens := by
  have hWritten := Written.sheet hSheet
  rw [Token.ofText?, hWritten.dropMark, hWritten.normalizeBreaks, if_pos hWritten.isAllowed]
  exact Lexer.run_sheet hSheet

end Chip8.Yaml
