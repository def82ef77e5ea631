import Chip8.Proofs.Layout.Sheet

/-!
# Words, ends of lines and blanks

What the lexer does with the characters of a sheet, seen from the character on. A word is
one plain scalar, which ends at the colon, the comma or the end of the line behind it; a
scalar would go on behind the end of its line, so the line that follows has to be less far
in. Blanks between tokens are passed over.

## Main results

* `plainScalar_mark`, `plainScalar_brace`, `plainScalar_line` — a word in front of a mark,
  in front of a closing brace, and at the end of a line.
* `skipSpace_blanks`, `skipSpace_newline`, `skipSpace_solid` — what stands between tokens.
-/

namespace Chip8.Yaml

/-! ## Characters of words -/

theorem ne_of_word {c other : Char} (h : c ∈ wordChars) (hOther : other ∉ wordChars) : c ≠ other :=
  fun hSame => hOther (hSame ▸ h)

theorem isGap_of_word {c : Char} (h : c ∈ wordChars) : isGap c = false := by
  have hAll : wordChars.all (!isGap ·) = true := by decide
  simpa using List.all_eq_true.1 hAll c h

theorem isIndicator_of_word {c : Char} (h : c ∈ wordChars) : Lexer.isIndicator c = false := by
  have hAll : wordChars.all (!Lexer.isIndicator ·) = true := by decide
  simpa using List.all_eq_true.1 hAll c h

private theorem isFlowIndicator_of_word {c : Char} (h : c ∈ wordChars) :
    isFlowIndicator c = false := by
  have hAll : wordChars.all (!isFlowIndicator ·) = true := by decide
  simpa using List.all_eq_true.1 hAll c h

theorem isBreak_of_word {c : Char} (h : c ∈ wordChars) : isBreak c = false := by
  have hGap := isGap_of_word h
  rw [isGap, Bool.or_eq_false_iff] at hGap
  exact hGap.2

/-! ## Places -/

namespace Place

/-- The place behind a text. -/
def past (p : Place) (text : List Char) : Place := text.foldl Place.step p

@[simp] theorem past_nil (p : Place) : p.past [] = p := rfl

@[simp] theorem past_cons (p : Place) (c : Char) (text : List Char) :
    p.past (c :: text) = (p.step c).past text := rfl

/-- Without a break the line stays the same. -/
theorem past_eq {text : List Char} (h : ∀ c ∈ text, isBreak c = false) (p : Place) :
    p.past text =
      { line := p.line, column := p.column + text.length, index := p.index + text.length } := by
  induction text generalizing p with
  | nil => rfl
  | cons c text ih =>
      have hStep : p.step c = { p with column := p.column + 1, index := p.index + 1 } := by
        rw [step, if_neg (by simp [h c])]
      rw [past_cons, ih (fun d hd => h d (List.mem_cons_of_mem c hd)), hStep, List.length_cons,
        Nat.add_assoc, Nat.add_assoc, Nat.add_comm 1]

@[simp] theorem column_newline (p : Place) : (p.step '\n').column = 0 := rfl

end Place

/-! ## Words in plain scalars -/

/-- A place where a run of text ends. -/
def EndsRun (inFlow : Bool) (tail : List Char) : Prop :=
  ∀ p, plainRun inFlow tail p = some ([], { rest := tail, place := p })

private theorem endsRun_of_gap (inFlow : Bool) {c : Char} {tail : List Char} (h : isGap c = true) :
    EndsRun inFlow (c :: tail) := by
  intro p
  rw [plainRun, if_pos h]

theorem endsRun_colon {inFlow : Bool} {tail : List Char} (hGap : atGap tail = true)
    (hFlow : (inFlow && atFlowIndicator tail) = false) : EndsRun inFlow (':' :: tail) := by
  intro p
  have hColon : isGap ':' = false := by decide
  cases inFlow
  · simp [plainRun, hColon, hGap]
  · simp only [Bool.true_and] at hFlow
    simp [plainRun, hColon, hGap, hFlow]

theorem endsRun_indicator {c : Char} {tail : List Char} (h : isFlowIndicator c = true)
    (hGap : isGap c = false) (hColon : c ≠ ':') : EndsRun true (c :: tail) := by
  intro p
  simp [plainRun, h, hGap, hColon]

private theorem plainRun_word {inFlow : Bool} {word tail : List Char}
    (hChars : ∀ c ∈ word, c ∈ wordChars) (hEnds : EndsRun inFlow tail) (p : Place) :
    plainRun inFlow (word ++ tail) p = some (word, { rest := tail, place := p.past word }) := by
  induction word generalizing p with
  | nil => exact hEnds p
  | cons c word ih =>
      have hMem := hChars c List.mem_cons_self
      have hColon : c ≠ ':' := ne_of_word hMem (by decide)
      rw [List.cons_append, plainRun]
      simp only [isGap_of_word hMem, isFlowIndicator_of_word hMem, beq_false_of_ne hColon,
        Bool.and_false, Bool.false_and, Bool.false_or, Bool.false_eq_true, if_false,
        ih (fun d hd => hChars d (List.mem_cons_of_mem c hd)), Option.map_some, Place.past_cons]

theorem startsMarker_of_ne {c mark : Char} (h : c ≠ mark) (rest : List Char) (p : Place) :
    Cursor.startsMarker mark { rest := c :: rest, place := p } = false := by
  have hHead : (c == mark) = false := beq_false_of_ne h
  unfold Cursor.startsMarker
  split <;> simp_all

private theorem atDocumentMarker_of_ne {c : Char} (hDash : c ≠ '-') (hDot : c ≠ '.')
    (rest : List Char)
    (p : Place) : Cursor.atDocumentMarker { rest := c :: rest, place := p } = false := by
  rw [Cursor.atDocumentMarker, startsMarker_of_ne hDash, startsMarker_of_ne hDot, Bool.or_false]

/-- A plain scalar goes on behind its first word with what follows the word. -/
theorem plainFrom_word {inFlow : Bool} {word tail : List Char} (hWord : IsWord word)
    (hEnds : EndsRun inFlow tail) (limit fuel : Nat) (p : Place) :
    plainFrom inFlow limit (fuel + 1) { rest := word ++ tail, place := p } [] {} =
      if tail.isEmpty || !atGap tail then
        some (word, false, { rest := tail, place := p.past word })
      else
        (readGap limit tail (p.past word) {}).bind fun (gap, cursor) =>
          if !inFlow && cursor.place.column < limit then some (word, gap.folded, cursor)
          else plainFrom inFlow limit fuel cursor word gap := by
  have hRun := plainRun_word hWord.chars hEnds p
  cases word with
  | nil => exact absurd rfl hWord.ne_nil
  | cons c word =>
      have hMem := hWord.chars c List.mem_cons_self
      have hMarker := atDocumentMarker_of_ne (ne_of_word hMem (by decide))
        (ne_of_word hMem (by decide)) (word ++ tail) p
      have hComment : atComment (c :: word ++ tail) = false := by
        unfold atComment
        split
        next h => exact absurd (List.cons.inj h).1 (ne_of_word hMem (by decide))
        next => rfl
      have hText : Gap.text {} = [] := rfl
      rw [List.cons_append] at hComment hRun ⊢
      rw [plainFrom, hMarker, hComment, hRun]
      simp only [Bool.or_false, Bool.false_eq_true, if_false, hText, List.nil_append]
      cases readGap limit tail (p.past (c :: word)) {} <;> rfl

/-- A word that a mark ends. -/
theorem plainScalar_mark {inFlow : Bool} {word : List Char} (hWord : IsWord word) {c : Char}
    {tail : List Char} (hEnds : EndsRun inFlow (c :: tail)) (hGap : isGap c = false) (limit : Nat)
    (p : Place) : plainScalar inFlow limit { rest := word ++ c :: tail, place := p } =
      some (word, false, { rest := c :: tail, place := p.past word }) := by
  rw [plainScalar, plainFrom_word hWord hEnds, if_pos]
  simp [atGap, hGap]

/-- A word that is the last one in braces. -/
theorem plainScalar_brace {word : List Char} (hWord : IsWord word) (tail : List Char) (limit : Nat)
    (p : Place) : plainScalar true limit { rest := word ++ ' ' :: '\x7d' :: tail, place := p } =
      some (word, false, { rest := '\x7d' :: tail, place := (p.past word).step ' ' }) := by
  have hEnds : EndsRun true (' ' :: '\x7d' :: tail) := endsRun_of_gap true (by decide)
  have hStop : EndsRun true ('\x7d' :: tail) :=
    endsRun_indicator (by decide) (by decide) (by decide)
  have hGap (q : Place) : readGap limit (' ' :: '\x7d' :: tail) q {} =
      some ({ blanks := [' '] }, { rest := '\x7d' :: tail, place := q.step ' ' }) := by
    rfl
  obtain ⟨fuel, hFuel⟩ : ∃ fuel, (word ++ ' ' :: '\x7d' :: tail).length = fuel + 1 :=
    ⟨word.length + tail.length + 1, by simp; omega⟩
  rw [plainScalar, plainFrom_word hWord hEnds, if_neg (by simp [atGap]; decide), hGap, hFuel,
    Option.bind_some]
  simp only [Bool.not_true, Bool.false_and, Bool.false_eq_true, if_false]
  rw [plainFrom, atDocumentMarker_of_ne (by decide) (by decide), hStop]
  rfl

/-! ## Ends of lines -/

/-- A text that is over, or goes on with neither a blank nor a break nor a comment. -/
def StartsSolid (text : List Char) : Prop := ∀ c ∈ text.head?, isGap c = false ∧ c ≠ '#'

theorem startsSolid_word {word : List Char} (hWord : IsWord word) (rest : List Char) :
    StartsSolid (word ++ rest) := by
  obtain ⟨c, word, rfl⟩ := List.exists_cons_of_ne_nil hWord.ne_nil
  have hMem := hWord.chars c List.mem_cons_self
  rintro d ⟨⟩
  exact ⟨isGap_of_word hMem, ne_of_word hMem (by decide)⟩

private theorem readGap_solid {rest : List Char} (h : StartsSolid rest) (limit : Nat) (p : Place)
    (gap : Gap) : readGap limit rest p gap = some (gap, { rest, place := p }) := by
  cases rest with
  | nil => rfl
  | cons c rest =>
      have hGap : isGap c = false := (h c rfl).1
      rw [isGap, Bool.or_eq_false_iff] at hGap
      simp [readGap, hGap]

/-- Blanks, as many as a line is in. -/
def blanks (count : Nat) : List Char := List.replicate count ' '

theorem past_blanks (count : Nat) (p : Place) :
    p.past (blanks count) = { p with column := p.column + count, index := p.index + count } := by
  have hBreaks : ∀ c ∈ blanks count, isBreak c = false := by
    intro c hMem
    rw [List.eq_of_mem_replicate hMem]
    decide
  rw [Place.past_eq hBreaks, blanks, List.length_replicate]

private theorem readGap_blanks {gap : Gap} (hFolded : gap.folded = true) (limit count : Nat)
    (rest : List Char) (p : Place) : readGap limit (blanks count ++ rest) p gap =
      readGap limit rest (p.past (blanks count)) gap := by
  induction count generalizing p with
  | zero => rfl
  | succ count ih =>
      have hFirst : readGap limit (' ' :: (blanks count ++ rest)) p gap =
          readGap limit (blanks count ++ rest) (p.step ' ') gap := by
        simp [readGap, hFolded, isBreak, isBlank]
      exact hFirst.trans (ih (p.step ' '))

/-- The end of a line, and the blanks at the head of the next one. -/
theorem readGap_line {rest : List Char} (h : StartsSolid rest) (limit count : Nat) (p : Place) :
    readGap limit ('\n' :: (blanks count ++ rest)) p {} =
      some ({ folded := true, leading := ['\n'] },
        { rest, place := (p.step '\n').past (blanks count) }) := by
  have hFirst : readGap limit ('\n' :: (blanks count ++ rest)) p {} =
      readGap limit (blanks count ++ rest) (p.step '\n')
        { folded := true, leading := ['\n'] } := rfl
  rw [hFirst, readGap_blanks rfl, readGap_solid h]

/-- A word that is the last one on its line, with a line behind it that is not as far in as the
scalar might go on. -/
theorem plainScalar_line {word : List Char} (hWord : IsWord word) {rest : List Char}
    (hSolid : StartsSolid rest) {limit count : Nat} (hLimit : count < limit) (p : Place) :
    plainScalar false limit { rest := word ++ '\n' :: (blanks count ++ rest), place := p } =
      some (word, true,
        { rest, place := ((p.past word).step '\n').past (blanks count) }) := by
  have hEnds : EndsRun false ('\n' :: (blanks count ++ rest)) := endsRun_of_gap false (by decide)
  have hColumn : (((p.past word).step '\n').past (blanks count)).column < limit := by
    rw [past_blanks, Place.column_newline, Nat.zero_add]
    exact hLimit
  rw [plainScalar, plainFrom_word hWord hEnds, if_neg (by simp [atGap]; decide),
    readGap_line hSolid, Option.bind_some]
  simp only [Bool.not_false, Bool.true_and, hColumn, decide_true, if_true]

/-! ## Blanks between tokens -/

theorem skipSpace_blanks (inFlow keyAllowed : Bool) (count : Nat) (rest : List Char) (p : Place) :
    skipSpace inFlow (blanks count ++ rest) p false keyAllowed =
      skipSpace inFlow rest (p.past (blanks count)) false keyAllowed := by
  induction count generalizing p with
  | zero => rfl
  | succ count ih =>
      have hFirst : skipSpace inFlow (' ' :: (blanks count ++ rest)) p false keyAllowed =
          skipSpace inFlow (blanks count ++ rest) (p.step ' ') false keyAllowed := by
        simp [skipSpace, isBreak]
      exact hFirst.trans (ih (p.step ' '))

theorem skipSpace_newline (inFlow keyAllowed : Bool) (rest : List Char) (p : Place) :
    skipSpace inFlow ('\n' :: rest) p false keyAllowed =
      skipSpace inFlow rest (p.step '\n') false (keyAllowed || !inFlow) := rfl

theorem skipSpace_solid (inFlow keyAllowed : Bool) {rest : List Char} (h : StartsSolid rest)
    (p : Place) :
    skipSpace inFlow rest p false keyAllowed = (keyAllowed, { rest, place := p }) := by
  cases rest with
  | nil => rfl
  | cons c rest =>
      obtain ⟨hGap, hHash⟩ := h c rfl
      simp only [isGap, isBlank, Bool.or_eq_false_iff, beq_eq_false_iff_ne] at hGap
      simp [skipSpace, hGap, hHash]

end Chip8.Yaml
