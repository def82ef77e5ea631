import Chip8.Proofs.Layout.Scalars

/-!
# Steps of the lexer

One lexer leads to another if it goes on as the other one does, whatever there is left to
read. Leading composes, so a long run is put together from short ones: a name with its
colon, a word, a mark, the blanks between them.

The lexer first settles, which passes over what stands between tokens and closes the block
collections that are further in; only what it settles to counts.

## Main results

* `Lexer.leads_name` — a name and its colon, which may open a mapping.
* `Lexer.leads_of_plain`, `Lexer.leads_of_mark` — a word, and a mark.
* `Lexer.leads_blanks`, `Lexer.leads_newline` — what stands between tokens.
* `Lexer.run_of_end` — the tokens, when the lexer is led to the end of a text.
-/

namespace Chip8.Yaml

/-! ## Runs of the lexer -/

namespace Lexer

/-- A lexer goes on as another one does, with enough left to read for the tokens on the way. -/
def Leads (l m : Lexer) : Prop :=
  ∃ count, count + m.cursor.rest.length ≤ l.cursor.rest.length ∧
    ∀ fuel, run (fuel + count) l = run fuel m

theorem Leads.trans {l m n : Lexer} (hFirst : Leads l m) (hThen : Leads m n) : Leads l n := by
  obtain ⟨a, hLess, hRun⟩ := hFirst
  obtain ⟨b, hLater, hGoesOn⟩ := hThen
  refine ⟨b + a, by omega, fun fuel => ?_⟩
  rw [← Nat.add_assoc, hRun, hGoesOn]

private theorem run_of_settle {l m : Lexer} (h : l.settle = m.settle) (fuel : Nat) :
    run fuel l = run fuel m := by
  cases fuel with
  | zero => rfl
  | succ fuel => simp only [run, h]

theorem Leads.refl (l : Lexer) : Leads l l := ⟨0, by omega, fun _ => rfl⟩

/-- Only what a lexer settles to counts. -/
theorem leads_of_settle {l m : Lexer} (h : l.settle = m.settle)
    (hLess : m.cursor.rest.length ≤ l.cursor.rest.length) : Leads l m :=
  ⟨0, by omega, run_of_settle h⟩

/-- One token. -/
theorem leads_of_next {l next m : Lexer} {c : Char} {rest : List Char} (hStill : l.settle = l)
    (hRest : l.cursor.rest = c :: rest) (hNext : l.next c rest = some next)
    (hSame : next.settle = m.settle) (hLess : m.cursor.rest.length < l.cursor.rest.length) :
    Leads l m := by
  refine ⟨1, by omega, fun fuel => ?_⟩
  simp only [run, hStill, hRest, hNext]
  exact run_of_settle hSame fuel

/-- The tokens, when the lexer is led to the end of the text. -/
theorem run_of_end {l m : Lexer} (h : Leads l m) (hEnd : m.settle.cursor.rest = []) :
    run (l.cursor.rest.length + 1) l = m.settle.closeAll.dropCandidate.map Lexer.tokens := by
  obtain ⟨count, hLess, hRun⟩ := h
  obtain ⟨fuel, hFuel⟩ : ∃ fuel, l.cursor.rest.length + 1 = fuel + 1 + count :=
    ⟨l.cursor.rest.length - count, by omega⟩
  rw [hFuel, hRun]
  simp only [run, hEnd]

/-! ## Settling -/

theorem settle_of_skip {l : Lexer} {keyAllowed : Bool} {cursor : Cursor}
    (h : skipSpace l.inFlow l.cursor.rest l.cursor.place false l.keyAllowed =
      (keyAllowed, cursor)) :
    l.settle = { l with keyAllowed, cursor }.unindent := by
  simp only [settle, h]

/-- What stands between tokens can be passed in parts. -/
theorem settle_of_skipped {l : Lexer} {keyAllowed : Bool} {cursor : Cursor}
    (h : skipSpace l.inFlow l.cursor.rest l.cursor.place false l.keyAllowed =
      skipSpace l.inFlow cursor.rest cursor.place false keyAllowed) :
    l.settle = { l with keyAllowed, cursor }.settle := by
  simp only [settle, h]
  rfl

private theorem deeperThan_of_le {column : Nat} {indents : List Nat}
    (h : ∀ indent ∈ indents, indent ≤ column) : deeperThan column indents = 0 := by
  cases indents with
  | nil => rfl
  | cons indent indents =>
      have hHead : indent ≤ column := h indent List.mem_cons_self
      rw [deeperThan, List.takeWhile_cons_of_neg (by simpa using hHead), List.length_nil]

/-- Whether a token at a column is in all the open block collections. -/
def Within (column : Nat) (l : Lexer) : Prop :=
  l.inFlow = true ∨ ∀ indent ∈ l.indents, indent ≤ column

private theorem unindent_of_within {l : Lexer} (h : l.Within l.column) : l.unindent = l := by
  rw [unindent]
  split
  next => rfl
  next hOutside =>
    have hIndents := h.resolve_left hOutside
    rw [deeperThan_of_le hIndents]
    simp [closeBlocks]

/-- Nothing is done in front of a token on its line. -/
theorem settle_of_solid {l : Lexer} (hSolid : StartsSolid l.cursor.rest)
    (hWithin : l.Within l.column) : l.settle = l :=
  (settle_of_skip (skipSpace_solid l.inFlow l.keyAllowed hSolid l.cursor.place)).trans
    (unindent_of_within hWithin)

/-! ## Blanks and breaks -/

/-- A lexer behind the blanks in front of it. -/
def pastBlanks (count : Nat) (rest : List Char) (l : Lexer) : Lexer :=
  { l with cursor := { rest, place := l.cursor.place.past (blanks count) } }

section PastBlanks

variable (count : Nat) (rest : List Char) (l : Lexer)

@[simp] theorem rest_pastBlanks : (l.pastBlanks count rest).cursor.rest = rest := rfl

@[simp] theorem column_pastBlanks : (l.pastBlanks count rest).column = l.column + count := by
  simp only [pastBlanks, column, past_blanks]

@[simp] theorem tokens_pastBlanks : (l.pastBlanks count rest).tokens = l.tokens := rfl

@[simp] theorem indents_pastBlanks : (l.pastBlanks count rest).indents = l.indents := rfl

@[simp] theorem keyAllowed_pastBlanks : (l.pastBlanks count rest).keyAllowed = l.keyAllowed := rfl

@[simp] theorem candidate_pastBlanks : (l.pastBlanks count rest).candidate = l.candidate := rfl

@[simp] theorem outer_pastBlanks : (l.pastBlanks count rest).outer = l.outer := rfl

end PastBlanks

theorem leads_blanks {l : Lexer} {count : Nat} {rest : List Char}
    (hRest : l.cursor.rest = blanks count ++ rest) : Leads l (l.pastBlanks count rest) := by
  refine leads_of_settle (settle_of_skipped ?_) (by simp [hRest])
  rw [hRest]
  exact skipSpace_blanks ..

theorem inFlow_of_outside {l : Lexer} (h : l.outer = []) : l.inFlow = false := by
  rw [inFlow, h]
  rfl

theorem leads_newline {l : Lexer} {rest : List Char} (hRest : l.cursor.rest = '\n' :: rest)
    (hOutside : l.outer = []) :
    Leads l
      { l with cursor := { rest, place := l.cursor.place.step '\n' }, keyAllowed := true } := by
  refine leads_of_settle (settle_of_skipped ?_) (by simp [hRest])
  rw [hRest, skipSpace_newline, inFlow_of_outside hOutside, Bool.not_false, Bool.or_true]

/-! ## Words -/

/-- Only a dash or a dot can be the first of three that mark the end of a document. -/
theorem startsMarker_at {l : Lexer} {c : Char} {rest : List Char}
    (hRest : l.cursor.rest = c :: rest) (hDash : c ≠ '-') (hDot : c ≠ '.') :
    l.cursor.startsMarker '-' = false ∧ l.cursor.startsMarker '.' = false := by
  rw [show l.cursor = { rest := c :: rest, place := l.cursor.place } by rw [← hRest]]
  exact ⟨startsMarker_of_ne hDash rest _, startsMarker_of_ne hDot rest _⟩

/-- A word starts a plain scalar. -/
theorem next_word {l : Lexer} {c : Char} {rest : List Char} (hRest : l.cursor.rest = c :: rest)
    (hMem : c ∈ wordChars) : l.next c rest = l.plain := by
  have hNe (other : Char) (hOther : other ∉ wordChars) : (c == other) = false :=
    beq_false_of_ne (ne_of_word hMem hOther)
  have hMarker := startsMarker_at hRest (ne_of_word hMem (by decide)) (ne_of_word hMem (by decide))
  have hStarts : startsPlain l.inFlow c rest = true := by
    simp [startsPlain, isIndicator_of_word hMem, isGap_of_word hMem]
  simp only [next, hMarker, hNe '%' (by decide),
    hNe '[' (by decide), hNe '\x7b' (by decide), hNe ']' (by decide), hNe '\x7d' (by decide),
    hNe ',' (by decide), hNe '-' (by decide), hNe '?' (by decide), hNe ':' (by decide),
    hNe '\'' (by decide), hNe '"' (by decide), hStarts, Bool.false_and, Bool.or_false,
    Bool.false_eq_true, if_false, if_true]

/-- A candidate that may be given up. -/
def Idle (candidate : Option KeyCandidate) : Prop := ∀ k, candidate = some k → k.required = false

theorem idle_none : Idle none := fun _ h => nomatch h

theorem dropCandidate_of_idle {l : Lexer} (h : Idle l.candidate) :
    l.dropCandidate = some { l with candidate := none } := by
  obtain ⟨cursor, tokens, indents, keyAllowed, candidate, outer⟩ := l
  cases candidate with
  | none => rfl
  | some k =>
      have hLoose : k.required = false := h k rfl
      simp [dropCandidate, hLoose]

private theorem saveCandidate_of_allowed {l : Lexer} (hKey : l.keyAllowed = true)
    (hIdle : Idle l.candidate) : l.saveCandidate = some { l with
      candidate := some
        { required := !l.inFlow && l.indents.head? == some l.column
          position := l.tokens.size
          place := l.cursor.place } } := by
  rw [saveCandidate, if_pos hKey, dropCandidate_of_idle hIdle]
  rfl

theorem saveCandidate_of_not_allowed {l : Lexer} (hKey : l.keyAllowed = false) :
    l.saveCandidate = some l := by
  rw [saveCandidate, if_neg (by simp [hKey])]

theorem plain_of_scalar {l m : Lexer} (hSave : l.saveCandidate = some m) {text : List Char}
    {ended : Bool} {cursor : Cursor}
    (hScalar : plainScalar m.inFlow m.contentColumn m.cursor = some (text, ended, cursor)) :
    l.plain = some ({ m with keyAllowed := ended, cursor }.emit (.scalar true text)) := by
  simp only [plain, hSave, hScalar, Option.bind_eq_bind, Option.bind_some]
  rfl

/-! ## Names -/

/-- A name in front of its colon is a candidate. -/
theorem plain_name {l : Lexer} {name rest : List Char} (hName : IsWord name)
    (hRest : l.cursor.rest = name ++ ':' :: rest) (hGap : atGap rest = true)
    (hFlow : atFlowIndicator rest = false) (hKey : l.keyAllowed = true) (hIdle : Idle l.candidate) :
    ∃ required, l.plain = some { l with
      cursor := { rest := ':' :: rest, place := l.cursor.place.past name }
      tokens := l.tokens.push (.scalar true name)
      keyAllowed := false
      candidate := some { required, position := l.tokens.size, place := l.cursor.place } } := by
  have hEnds : EndsRun l.inFlow (':' :: rest) := endsRun_colon hGap (by simp [hFlow])
  have hScalar := plainScalar_mark hName hEnds (by decide) l.contentColumn l.cursor.place
  rw [← hRest] at hScalar
  exact ⟨_, plain_of_scalar (saveCandidate_of_allowed hKey hIdle) hScalar⟩

/-- The colon behind a name on its line, with the name as the candidate. -/
theorem value_of_candidate {l : Lexer} {k : KeyCandidate} (h : l.candidate = some k)
    (hReaches : k.reaches l.cursor.place = true) : l.value = some (l.valueOf k) := by
  simp only [value, h, hReaches, if_true]

private theorem insertIdx_length {α : Type} (first later : List α) (a : α) :
    (first ++ later).insertIdx first.length a = first ++ a :: later := by
  induction first with
  | nil => rfl
  | cons b first ih => exact congrArg (b :: ·) ih

/-- Whether a token at a column opens a block collection. -/
def opens (column : Nat) (l : Lexer) : Bool := !l.inFlow && l.contentColumn ≤ column

/-- The token that a token at a column opens a block collection with. -/
def opening (column : Nat) (start : Token) (l : Lexer) : List Token :=
  if l.opens column then [start] else []

/-- The open block collections from a token at a column on. -/
def indentsFrom (column : Nat) (l : Lexer) : List Nat :=
  if l.opens column then column :: l.indents else l.indents

private theorem indentTo_eq {l : Lexer} {ts later : List Token}
    (hTokens : l.tokens = (ts ++ later).toArray) (column : Nat) (start : Token) :
    l.indentTo column ts.length start = { l with
      tokens := (ts ++ (l.opening column start ++ later)).toArray
      indents := l.indentsFrom column } := by
  rw [indentTo, ← opens, opening, indentsFrom]
  cases l.opens column with
  | true =>
      rw [if_pos rfl, if_pos rfl, if_pos rfl, hTokens, List.insertIdxIfInBounds_toArray,
        insertIdx_length]
      rfl
  | false =>
      rw [if_neg Bool.false_ne_true, if_neg Bool.false_ne_true, if_neg Bool.false_ne_true,
        List.nil_append, ← hTokens]

/-- The tokens of a key and its colon, where the name is the last token so far. -/
theorem valueOf_eq {l : Lexer} {ts : List Token} {name : List Char} {k : KeyCandidate}
    (hTokens : l.tokens = (ts ++ [Token.scalar true name]).toArray)
    (hPosition : k.position = ts.length) :
    l.valueOf k = { l with
      cursor := l.cursor.skip
      tokens := (ts ++ (l.opening k.place.column .blockMappingStart ++ keyTokens name)).toArray
      indents := l.indentsFrom k.place.column
      keyAllowed := false
      candidate := none } := by
  obtain ⟨required, position, place⟩ := k
  obtain rfl : position = ts.length := hPosition
  have hKey : l.tokens.insertIdxIfInBounds ts.length .key =
      (ts ++ [Token.key, .scalar true name]).toArray := by
    rw [hTokens, List.insertIdxIfInBounds_toArray, insertIdx_length]
  have hIndent :=
    indentTo_eq (l := { l with tokens := (ts ++ [Token.key, .scalar true name]).toArray }) rfl
      place.column .blockMappingStart
  simp only [valueOf, hKey, hIndent]
  simp [emit, skipMany, Cursor.skipMany, keyTokens]
  exact ⟨rfl, rfl⟩

private theorem next_colon {l : Lexer} {rest : List Char} (hRest : l.cursor.rest = ':' :: rest)
    (hGap : atGap rest = true) : l.next ':' rest = l.value := by
  simp [next, startsMarker_at hRest (by decide) (by decide), hGap]

/-- A word is read as a plain scalar. -/
theorem leads_of_plain {l next m : Lexer} {word tail : List Char} (hWord : IsWord word)
    (hRest : l.cursor.rest = word ++ tail) (hWithin : l.Within l.column)
    (hPlain : l.plain = some next) (hSame : next.settle = m.settle)
    (hLess : m.cursor.rest.length ≤ tail.length) : Leads l m := by
  have hSolid := startsSolid_word hWord tail
  rw [← hRest] at hSolid
  obtain ⟨c, word, rfl⟩ := List.exists_cons_of_ne_nil hWord.ne_nil
  have hMem := hWord.chars c List.mem_cons_self
  refine leads_of_next (settle_of_solid hSolid hWithin) hRest
    ((next_word hRest hMem).trans hPlain) hSame ?_
  rw [hRest, List.cons_append, List.length_cons, List.length_append]
  omega

/-- **A name and its colon** are a key, which opens a mapping if it stands far enough in. -/
theorem leads_name {l : Lexer} {ts : List Token} {name rest : List Char} (hName : IsName name)
    (hRest : l.cursor.rest = name ++ ':' :: rest) (hGap : atGap rest = true)
    (hFlow : atFlowIndicator rest = false) (hTokens : l.tokens = ts.toArray)
    (hWithin : l.Within l.column) (hKey : l.keyAllowed = true) (hIdle : Idle l.candidate) :
    Leads l { l with
      cursor := { rest, place := (l.cursor.place.past name).step ':' }
      tokens := (ts ++ (l.opening l.column .blockMappingStart ++ keyTokens name)).toArray
      indents := l.indentsFrom l.column
      keyAllowed := false
      candidate := none } := by
  obtain ⟨required, hPlain⟩ := plain_name hName.toIsWord hRest hGap hFlow hKey hIdle
  let k : KeyCandidate := { required, position := l.tokens.size, place := l.cursor.place }
  let named : Lexer := { l with
    cursor := { rest := ':' :: rest, place := l.cursor.place.past name }
    tokens := l.tokens.push (.scalar true name)
    keyAllowed := false
    candidate := some k }
  have hNamed : Leads l named :=
    leads_of_plain hName.toIsWord hRest hWithin hPlain rfl (Nat.le_refl _)
  have hPlace := Place.past_eq (fun c hc => isBreak_of_word (hName.chars c hc)) l.cursor.place
  have hColumn : named.column = l.column + name.length := by
    simp only [named, column, hPlace]
  have hStill : named.settle = named := by
    refine settle_of_solid (by rintro c ⟨⟩; decide) ?_
    rw [hColumn]
    exact hWithin.imp_right fun h indent hMem => Nat.le_trans (h indent hMem) (Nat.le_add_right _ _)
  have hReaches : k.reaches named.cursor.place = true := by
    have hShort := hName.short
    simp only [named, k, KeyCandidate.reaches, hPlace, beq_self_eq_true, Bool.true_and]
    simpa using hShort
  have hNext : named.next ':' rest = some (named.valueOf k) :=
    (next_colon rfl hGap).trans (value_of_candidate rfl hReaches)
  have hLast : named.tokens = (ts ++ [Token.scalar true name]).toArray := by simp [named, hTokens]
  rw [valueOf_eq hLast (by simp [k, hTokens])] at hNext
  exact hNamed.trans (leads_of_next hStill rfl hNext rfl (Nat.lt_succ_self _))

/-! ## Marks -/

/-- Past a character. -/
theorem skip_eq {c : Cursor} {ch : Char} {rest : List Char} (hRest : c.rest = ch :: rest) :
    c.skip = { rest, place := c.place.step ch } := by
  rw [Cursor.skip, hRest]

theorem flowEntry_eq {l : Lexer} {c : Char} {rest : List Char} (hRest : l.cursor.rest = c :: rest)
    (hIdle : Idle l.candidate) : l.flowEntry = some { l with
      cursor := { rest, place := l.cursor.place.step c }
      tokens := l.tokens.push .flowEntry
      keyAllowed := true
      candidate := none } := by
  rw [flowEntry, dropCandidate_of_idle hIdle]
  simp [emit, skipMany, Cursor.skipMany, skip_eq hRest]

theorem flowEnd_eq {l : Lexer} {c : Char} {rest : List Char} (hRest : l.cursor.rest = c :: rest)
    (hIdle : Idle l.candidate) (token : Token) : l.flowEnd token = some { l with
      cursor := { rest, place := l.cursor.place.step c }
      tokens := l.tokens.push token
      keyAllowed := false
      candidate := l.outer.head?.join
      outer := l.outer.tail } := by
  rw [flowEnd, dropCandidate_of_idle hIdle]
  simp [emit, skipMany, Cursor.skipMany, skip_eq hRest]

theorem leads_of_mark {l m : Lexer} {c : Char} {rest : List Char}
    (hRest : l.cursor.rest = c :: rest)
    (hMark : isGap c = false ∧ c ≠ '#') (hWithin : l.Within l.column)
    (hNext : l.next c rest = some m) (hLess : m.cursor.rest.length ≤ rest.length) : Leads l m := by
  have hSolid : StartsSolid l.cursor.rest := by
    rw [hRest]
    rintro d ⟨⟩
    exact hMark
  refine leads_of_next (settle_of_solid hSolid hWithin) hRest hNext rfl ?_
  rw [hRest, List.length_cons]
  omega

theorem flowStart_eq {l : Lexer} {c : Char} {rest : List Char} (hRest : l.cursor.rest = c :: rest)
    (hKey : l.keyAllowed = true) (hIdle : Idle l.candidate)
    (hColumn : ∀ indent ∈ l.indents.head?, indent < l.column) (token : Token) :
    ∃ k, Idle k ∧ l.flowStart token = some { l with
      cursor := { rest, place := l.cursor.place.step c }
      tokens := l.tokens.push token
      keyAllowed := true
      candidate := none
      outer := k :: l.outer } := by
  have hLoose : (!l.inFlow && l.indents.head? == some l.column) = false := by
    rw [Bool.and_eq_false_iff, beq_eq_false_iff_ne]
    exact Or.inr fun hSame => Nat.lt_irrefl _ (hColumn l.column hSame)
  refine ⟨some { required := false, position := l.tokens.size, place := l.cursor.place }, ?_, ?_⟩
  · rintro k ⟨⟩
    rfl
  · rw [flowStart, saveCandidate_of_allowed hKey hIdle, hLoose]
    simp [emit, skipMany, Cursor.skipMany, skip_eq hRest]

theorem blockEntry_eq {l : Lexer} {c : Char} {rest : List Char} {ts : List Token}
    (hRest : l.cursor.rest = c :: rest) (hTokens : l.tokens = (ts ++ []).toArray)
    (hKey : l.keyAllowed = true) (hIdle : Idle l.candidate) :
    l.blockEntry = some { l with
      cursor := { rest, place := l.cursor.place.step c }
      tokens := (ts ++ (l.opening l.column .blockSequenceStart ++ [Token.blockEntry])).toArray
      indents := l.indentsFrom l.column
      keyAllowed := true
      candidate := none } := by
  have hIndent := indentTo_eq hTokens l.column .blockSequenceStart
  have hSize : l.tokens.size = ts.length := by simp [hTokens]
  have hDrop : (l.indentTo l.column l.tokens.size .blockSequenceStart).dropCandidate =
      some { l with
        tokens := (ts ++ l.opening l.column .blockSequenceStart).toArray
        indents := l.indentsFrom l.column
        candidate := none } := by
    rw [hSize, hIndent, dropCandidate_of_idle (by exact hIdle), List.append_nil]
  rw [blockEntry, if_neg (by simp [hKey]), hDrop]
  simp [emit, skipMany, Cursor.skipMany, skip_eq hRest]

end Lexer

end Chip8.Yaml
