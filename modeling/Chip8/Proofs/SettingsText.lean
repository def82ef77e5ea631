import Chip8.Proofs.Layout.Lexing
import Chip8.Proofs.Layout.Parsing
import Chip8.Proofs.Playback

/-!
# Settings written and read

A draft says what a settings file is to say. It is written with a heading for each
part, numbers in plain decimal, and a row in braces for each key event; what the draft
leaves open is left out. Reading the text gives the values of the draft, the defaults
for what was left out, and the events sorted by frame.

The numbers of a draft are any natural numbers, so a draft can be written that is no
settings file: one with a number that is too large, or with a key past the sixteen.
Then the whole text is refused.

## Main results

* `Draft.ofText?_text` — the tree of the text of a draft.
* `Yaml.natural?_digits` — a decimal number, read below a limit.
* `Settings.events?_rows` — the events of a draft.
* `KeyEvent.eq_of_sorted` — events sorted by frame are known by those of each frame.
* `settings_written_and_read` — the text of a draft.
-/

namespace Chip8

/-! ## Drafts -/

/-- A key event as it is to be written. -/
structure EventDraft where
  frame : Nat
  key : Nat
  pressed : Option Bool := none
  deriving DecidableEq, Repr

/-- What a settings file is to say. A heading can be left out, or have nothing below it. -/
structure Draft where
  /-- Speed and seed. -/
  vm : Option (Option Nat × Option Nat) := none
  frames : Option Nat := none
  keys : Option (List EventDraft) := none
  deriving DecidableEq, Repr

open Yaml (Sheet Content Field IsWord IsName Node)

namespace EventDraft

/-- The field that says whether the key goes down. -/
def pressedField (pressed : Bool) : Field :=
  ("pressed".toList, (if pressed then "true" else "false").toList)

/-- The row of an event. -/
def row (e : EventDraft) : Field × List Field :=
  (("frame".toList, Numeral.digits 10 e.frame),
    ("key".toList, Numeral.digits 10 e.key) :: (e.pressed.map pressedField).toList)

end EventDraft

namespace Draft

def speed (d : Draft) : Option Nat := d.vm.bind (·.1)

def seed (d : Draft) : Option Nat := d.vm.bind (·.2)

def events (d : Draft) : List EventDraft := d.keys.getD []

/-- The numbers are small enough, and the keys are among the sixteen. -/
structure Fits (d : Draft) : Prop where
  speed : ∀ n ∈ d.speed, n < UInt64.size
  seed : ∀ n ∈ d.seed, n < UInt64.size
  frames : ∀ n ∈ d.frames, n < UInt64.size
  events : ∀ e ∈ d.events, e.frame < UInt64.size ∧ e.key < 16

/-- A number below the heading of the machine. -/
def vmField (name : String) (n : Nat) : Field := (name.toList, Numeral.digits 10 n)

/-- What stands below the heading of the machine. -/
def vmContent (vm : Option Nat × Option Nat) : Content :=
  .fields ((vm.1.map (vmField "speed")).toList ++ (vm.2.map (vmField "seed")).toList)

/-- The sheet of a draft. -/
def sheet (d : Draft) : Sheet :=
  (d.vm.map fun vm => ("vm".toList, vmContent vm)).toList ++
  (d.frames.map fun n => ("frames".toList, .word (Numeral.digits 10 n))).toList ++
  (d.keys.map fun events => ("keys".toList, .rows (events.map EventDraft.row))).toList

/-- The text of a draft. -/
def text (d : Draft) : String := String.ofList d.sheet.text

example :
    text { vm := some (some 15, some 7), frames := some 600,
           keys := some [{ frame := 30, key := 5 }, { frame := 32, key := 5, pressed := false }] } =
      "vm:\n  speed: 15\n  seed: 7\nframes: 600\nkeys:\n  - \x7b frame: 30, key: 5 \x7d\n  - \x7b frame: 32, key: 5, pressed: false \x7d\n" := by
  decide

/-! ## Words -/

private theorem isWord_digits (n : Nat) : IsWord (Numeral.digits 10 n) where
  ne_nil := Numeral.digits_ne_nil (by decide) n
  chars c hc := by
    have hAll : ∀ d : Fin 10, Numeral.digitChar d.val ∈ Yaml.wordChars := by decide
    obtain ⟨d, hd, rfl⟩ := Numeral.mem_digits_lt (by decide) hc
    exact hAll ⟨d, hd⟩

private theorem isWord_of_chars {word : String}
    (h : (!word.toList.isEmpty && word.toList.all Yaml.wordChars.contains) = true) :
    IsWord word.toList := by
  obtain ⟨hSome, hChars⟩ := (Bool.and_eq_true _ _).mp h
  exact ⟨by simpa using hSome, by simpa using hChars⟩

private theorem isName_of_chars {name : String}
    (h : (!name.toList.isEmpty && name.toList.all Yaml.wordChars.contains) = true)
    (hShort : name.toList.length ≤ Yaml.keyReach) : IsName name.toList :=
  ⟨isWord_of_chars h, hShort⟩

private theorem vmContent_wellFormed (vm : Option Nat × Option Nat) :
    (vmContent vm).WellFormed := by
  have hNames : IsName "speed".toList ∧ IsName "seed".toList :=
    ⟨isName_of_chars (by decide) (by decide),
      isName_of_chars (by decide) (by decide)⟩
  intro f hMem
  simp only [List.mem_append, Option.mem_toList, Option.map_eq_some_iff] at hMem
  rcases hMem with ⟨n, _, rfl⟩ | ⟨n, _, rfl⟩
  · exact ⟨hNames.1, isWord_digits n⟩
  · exact ⟨hNames.2, isWord_digits n⟩

private theorem row_wellFormed (e : EventDraft) :
    e.row.1.WellFormed ∧ ∀ f ∈ e.row.2, f.WellFormed := by
  have hFrame : IsName "frame".toList := isName_of_chars (by decide) (by decide)
  have hKey : IsName "key".toList := isName_of_chars (by decide) (by decide)
  have hPressed : IsName "pressed".toList := isName_of_chars (by decide) (by decide)
  have hWords : IsWord "true".toList ∧ IsWord "false".toList :=
    ⟨isWord_of_chars (by decide), isWord_of_chars (by decide)⟩
  refine ⟨⟨hFrame, isWord_digits e.frame⟩, fun f hMem => ?_⟩
  rcases List.mem_cons.1 hMem with rfl | hMem
  · exact ⟨hKey, isWord_digits e.key⟩
  · simp only [Option.mem_toList, Option.map_eq_some_iff] at hMem
    obtain ⟨pressed, _, rfl⟩ := hMem
    cases pressed with
    | true => exact ⟨hPressed, hWords.1⟩
    | false => exact ⟨hPressed, hWords.2⟩

private theorem sheet_wellFormed (d : Draft) : d.sheet.WellFormed := by
  have hNames : IsName "vm".toList ∧ IsName "frames".toList ∧ IsName "keys".toList :=
    ⟨isName_of_chars (by decide) (by decide),
      isName_of_chars (by decide) (by decide),
      isName_of_chars (by decide) (by decide)⟩
  intro entry hMem
  simp only [sheet, List.mem_append, Option.mem_toList, Option.map_eq_some_iff] at hMem
  rcases hMem with (⟨vm, _, rfl⟩ | ⟨n, _, rfl⟩) | ⟨events, _, rfl⟩
  · exact ⟨hNames.1, vmContent_wellFormed vm⟩
  · exact ⟨hNames.2.1, isWord_digits n⟩
  · refine ⟨hNames.2.2, fun row hRow => ?_⟩
    obtain ⟨e, _, rfl⟩ := List.mem_map.1 hRow
    exact row_wellFormed e

/-- **The text of a draft is read as the tree of its sheet.** -/
theorem ofText?_text (d : Draft) : Node.ofText? d.text = some d.sheet.node := by
  rw [Node.ofText?, text, String.toList_ofList, Sheet.ofText?_text d.sheet_wellFormed]
  exact Sheet.ofTokens?_tokens d.sheet

end Draft

/-! ## Numbers -/

namespace Yaml

open Numeral (digits digitChar)

/-- The first digit of a number, which is a zero only if the number is. -/
theorem exists_decimal (n : Nat) : ∃ (d : Fin 10) (rest : List Char),
    digits 10 n = digitChar d :: rest ∧ (d.val = 0 → rest = []) := by
  obtain ⟨d, rest, hd, hDigits, hZero⟩ := Numeral.exists_digits (by decide : 2 ≤ 10) n
  exact ⟨⟨d, hd⟩, rest, hDigits, fun h => (hZero h).2⟩

theorem natural?_digits (limit n : Nat) :
    natural? limit (digits 10 n) = if n < limit then some n else none := by
  have hValue := Numeral.value?_digits (by decide : 2 ≤ 10) (by decide) n
  obtain ⟨d, rest, hDigits, hZero⟩ := exists_decimal n
  rw [hDigits] at hValue ⊢
  have hChar : digitChar d ≠ '+' ∧ (digitChar d = '0' → d.val = 0) := by
    have hAll : ∀ d : Fin 10, digitChar d ≠ '+' ∧ (digitChar d = '0' → d.val = 0) := by decide
    exact hAll d
  have hPlus : Numeral.dropPlus (digitChar d :: rest) = digitChar d :: rest := by
    unfold Numeral.dropPlus
    split
    next h => exact absurd (List.cons.inj h).1 hChar.1
    next => rfl
  have hBase : baseOf (digitChar d :: rest) = (10, digitChar d :: rest) := by
    unfold baseOf
    split
    next h => cases (hZero (hChar.2 (List.cons.inj h).1)).symm.trans (List.cons.inj h).2
    next h => cases (hZero (hChar.2 (List.cons.inj h).1)).symm.trans (List.cons.inj h).2
    next h => cases (hZero (hChar.2 (List.cons.inj h).1)).symm.trans (List.cons.inj h).2
    next => rfl
  have hIdle : hasIdleZero (digitChar d :: rest) = false := by
    unfold hasIdleZero
    split
    next h => cases (hZero (hChar.2 (List.cons.inj h).1)).symm.trans (List.cons.inj h).2
    next => rfl
  simp only [natural?, hPlus, hBase, hIdle, hValue, Bool.false_eq_true, if_false]

private theorem isNull_digits (n : Nat) : isNull (digits 10 n) = false := by
  obtain ⟨d, rest, hDigits, _⟩ := exists_decimal n
  have hAll : ∀ d : Fin 10, digitChar d ≠ '~' ∧ digitChar d ≠ 'n' ∧ digitChar d ≠ 'N' := by decide
  obtain ⟨hTilde, hLower, hUpper⟩ := hAll d
  simp [isNull, hDigits, hTilde.symm, hLower.symm, hUpper.symm]

/-! ## Fields -/

section Fields

variable {α : Type} {name : String} {read : Node → Option α} {fields : List (List Char × Node)}

private theorem field?_of_absent (hOwn : fields.filter (·.1 == name.toList) = []) :
    field? name read fields = some none := by
  rw [field?, hOwn]

private theorem field?_of_once {own : List Char} {value : Node}
    (hOwn : fields.filter (·.1 == name.toList) = [(own, value)]) :
    field? name read fields = (read value).map some := by
  rw [field?, hOwn]

private theorem required?_of_once {own : List Char} {value : Node}
    (hOwn : fields.filter (·.1 == name.toList) = [(own, value)]) :
    required? name read fields = read value := by
  rw [required?, field?_of_once hOwn]
  cases read value <;> rfl

private theorem fields?_pairs (fs : List Field) : (Node.mapping (fs.map Field.pair)).fields? =
    some (fs.map fun f => (f.1, .scalar true f.2)) := by
  rw [Node.fields?]
  induction fs with
  | nil => rfl
  | cons f fs ih =>
      rw [List.map_cons, List.mapM_cons, ih]
      rfl

end Fields

end Yaml

/-! ## Values -/

namespace Settings

open Yaml (field? required?)
open Numeral (digits wordLimit)

private theorem count?_digits (n : Nat) :
    count? (.scalar true (digits 10 n)) = if n < wordLimit then some n else none :=
  Yaml.natural?_digits wordLimit n

private theorem nullable?_digits (n : Nat) : Node.nullable? count? (.scalar true (digits 10 n)) =
    (count? (.scalar true (digits 10 n))).map some := by
  rw [Node.nullable?, Yaml.isNull_digits]
  rfl

private theorem key?_digits (k : Nat) :
    key? (.scalar true (digits 10 k)) = if h : k < 16 then some ⟨k, h⟩ else none := by
  have hNatural : Node.natural? 256 (.scalar true (digits 10 k)) =
      if k < 256 then some k else none := Yaml.natural?_digits 256 k
  rw [key?, hNatural]
  by_cases hKey : k < 16
  · have hByte : k < 256 := by omega
    rw [if_pos hByte, dif_pos hKey, Option.bind_some, Key.ofNat?, dif_pos hKey]
    rfl
  · rw [dif_neg hKey]
    split
    next => rw [Option.bind_some, Key.ofNat?, dif_neg hKey]; rfl
    next => rfl

private theorem boolean?_pressed (pressed : Bool) :
    Node.boolean? (.scalar true (EventDraft.pressedField pressed).2) = some pressed := by
  cases pressed <;> rfl

/-! ## Events -/

/-- The event that a draft stands for, unless a number in it is too large. -/
def eventOf? (e : EventDraft) : Option KeyEvent :=
  if h : e.frame < wordLimit ∧ e.key < 16 then
    some { frame := e.frame, key := ⟨e.key, h.2⟩, pressed := e.pressed.getD true }
  else none

/-- A row is read as its event. -/
theorem event?_row (e : EventDraft) : event? (Content.rowNode e.row) = eventOf? e := by
  have hFields := Yaml.fields?_pairs (e.row.1 :: e.row.2)
  obtain ⟨frame, key, pressed⟩ := e
  have hRead : event? (Content.rowNode (EventDraft.row ⟨frame, key, pressed⟩)) = (do
      let frame ← count? (.scalar true (digits 10 frame))
      let key ← key? (.scalar true (digits 10 key))
      return { frame, key, pressed := pressed.getD true }) := by
    rw [event?, Content.rowNode, hFields, Option.bind_eq_bind, Option.bind_some]
    cases pressed with
    | none =>
        rw [Yaml.required?_of_once (by rfl), Yaml.required?_of_once (by rfl),
          Yaml.field?_of_absent (by rfl)]
        rfl
    | some b =>
        rw [Yaml.required?_of_once (by rfl), Yaml.required?_of_once (by rfl),
          Yaml.field?_of_once (by rfl), boolean?_pressed]
        rfl
  rw [hRead, count?_digits, key?_digits, eventOf?]
  by_cases hFrame : frame < wordLimit
  · by_cases hKey : key < 16 <;> simp [hFrame, hKey]
  · simp [hFrame]

/-- The rows of a list of events. -/
theorem events?_rows (events : List EventDraft) :
    events? (Content.rows (events.map EventDraft.row)).node = events.mapM eventOf? := by
  have hItems : (Content.rows (events.map EventDraft.row)).node.items? =
      some (events.map fun e => Content.rowNode e.row) := by
    cases events with
    | nil => rfl
    | cons e events => simp only [Content.node, List.map_cons, Node.items?, List.map_map]; rfl
  rw [events?, hItems, Option.bind_eq_bind, Option.bind_some]
  clear hItems
  induction events with
  | nil => rfl
  | cons e events ih => rw [List.map_cons, List.mapM_cons, List.mapM_cons, event?_row, ih]

/-- The events of a draft whose numbers are small enough. -/
theorem mapM_eventOf? {events : List EventDraft}
    (hSmall : ∀ e ∈ events, e.frame < wordLimit ∧ e.key < 16) :
    ∃ listed, events.mapM eventOf? = some listed ∧
      listed.map (fun e => (e.frame, e.key.val, e.pressed)) =
        events.map fun e => (e.frame, e.key, e.pressed.getD true) := by
  induction events with
  | nil => exact ⟨[], rfl, rfl⟩
  | cons e events ih =>
      obtain ⟨hOwn, hRest⟩ := List.forall_mem_cons.1 hSmall
      obtain ⟨listed, hListed, hSame⟩ := ih hRest
      let event : KeyEvent :=
        { frame := e.frame, key := ⟨e.key, hOwn.2⟩, pressed := e.pressed.getD true }
      have hEvent : eventOf? e = some event := dif_pos hOwn
      refine ⟨event :: listed, ?_, ?_⟩
      · rw [List.mapM_cons, hEvent, hListed]
        rfl
      · rw [List.map_cons, List.map_cons, hSame]

/-- A key past the sixteen, and no events are read. -/
theorem mapM_eventOf?_of_key {events : List EventDraft} (hKey : ∃ e ∈ events, 15 < e.key) :
    events.mapM eventOf? = none := by
  obtain ⟨e, hMem, hPast⟩ := hKey
  have hNone : eventOf? e = none := dif_neg fun h => absurd h.2 (by omega)
  induction events with
  | nil => cases hMem
  | cons first events ih =>
      rw [List.mapM_cons]
      rcases List.mem_cons.1 hMem with rfl | hLater
      · rw [hNone]
        rfl
      · rw [ih hLater]
        cases eventOf? first <;> rfl

/-! ## How the machine runs -/

/-- The configuration below the heading of the machine. -/
theorem conf?_vmContent {vm : Option Nat × Option Nat} (hSpeed : ∀ n ∈ vm.1, n < wordLimit)
    (hSeed : ∀ n ∈ vm.2, n < wordLimit) :
    conf? (Draft.vmContent vm).node =
      some { speed := vm.1.getD 15, seed := vm.2.map UInt64.ofNat } := by
  obtain ⟨speed, seed⟩ := vm
  let fields : List (List Char × Node) :=
    (speed.map fun n => ("speed".toList, .scalar true (digits 10 n))).toList ++
      (seed.map fun n => ("seed".toList, .scalar true (digits 10 n))).toList
  have hFields : (Draft.vmContent (speed, seed)).node.fields? = some fields := by
    cases speed <;> cases seed <;> rfl
  have hSpeedRead : field? "speed" count? fields = some speed := by
    cases speed with
    | none => exact Yaml.field?_of_absent (by cases seed <;> rfl)
    | some n =>
        rw [Yaml.field?_of_once (by cases seed <;> rfl), count?_digits, if_pos (hSpeed n rfl)]
        rfl
  have hSeedRead : field? "seed" (Node.nullable? count?) fields = some (seed.map some) := by
    cases seed with
    | none => exact Yaml.field?_of_absent (by cases speed <;> rfl)
    | some n =>
        rw [Yaml.field?_of_once (by cases speed <;> rfl), nullable?_digits, count?_digits,
          if_pos (hSeed n rfl)]
        rfl
  have hToneRead : field? "tone_frequency" Node.real? fields = some none :=
    Yaml.field?_of_absent (by cases speed <;> cases seed <;> rfl)
  rw [conf?, hFields, Option.bind_eq_bind, Option.bind_some, hSpeedRead, hSeedRead, hToneRead]
  cases seed <;> rfl

/-! ## A whole draft -/

section Draft

variable (d : Draft)

/-- The fields of a draft. -/
def fieldsOf : List (List Char × Node) :=
  (d.vm.map fun vm => ("vm".toList, (Draft.vmContent vm).node)).toList ++
  (d.frames.map fun n => ("frames".toList, Node.scalar true (digits 10 n))).toList ++
  (d.keys.map fun events =>
    ("keys".toList, (Content.rows (events.map EventDraft.row)).node)).toList

private theorem fields?_sheet : d.sheet.node.fields? = some (fieldsOf d) := by
  obtain ⟨vm, frames, keys⟩ := d
  cases vm <;> cases frames <;> cases keys <;> rfl

/-- The events are read one by one. -/
theorem field?_keys :
    (field? "keys" events? (fieldsOf d)).map (·.getD []) = d.events.mapM eventOf? := by
  obtain ⟨vm, frames, keys⟩ := d
  cases keys with
  | none =>
      rw [Yaml.field?_of_absent (by cases vm <;> cases frames <;> rfl)]
      rfl
  | some events =>
      rw [Yaml.field?_of_once (by cases vm <;> cases frames <;> rfl), events?_rows]
      change Option.map _ (Option.map some (events.mapM eventOf?)) = events.mapM eventOf?
      cases events.mapM eventOf? <;> rfl

variable {d}

private theorem field?_vm (hSpeed : ∀ n ∈ d.speed, n < wordLimit)
    (hSeed : ∀ n ∈ d.seed, n < wordLimit) : (field? "vm" conf? (fieldsOf d)).map (·.getD {}) =
      some { speed := d.speed.getD 15, seed := d.seed.map UInt64.ofNat } := by
  obtain ⟨vm, frames, keys⟩ := d
  cases vm with
  | none =>
      rw [Yaml.field?_of_absent (by cases frames <;> cases keys <;> rfl)]
      rfl
  | some vm =>
      rw [Yaml.field?_of_once (by cases frames <;> cases keys <;> rfl),
        conf?_vmContent hSpeed hSeed]
      rfl

private theorem field?_frames (hFrames : ∀ n ∈ d.frames, n < wordLimit) :
    field? "frames" (Node.nullable? count?) (fieldsOf d) = some (d.frames.map some) := by
  obtain ⟨vm, frames, keys⟩ := d
  cases frames with
  | none => exact Yaml.field?_of_absent (by cases vm <;> cases keys <;> rfl)
  | some n =>
      rw [Yaml.field?_of_once (by cases vm <;> cases keys <;> rfl), nullable?_digits,
        count?_digits, if_pos (hFrames n rfl)]
      rfl

/-- The settings a draft stands for, when its numbers are small enough. -/
theorem ofNode?_sheet {listed : List KeyEvent} (hSpeed : ∀ n ∈ d.speed, n < wordLimit)
    (hSeed : ∀ n ∈ d.seed, n < wordLimit) (hFrames : ∀ n ∈ d.frames, n < wordLimit)
    (hListed : d.events.mapM eventOf? = some listed) :
    ofNode? d.sheet.node = some {
      conf := { speed := d.speed.getD 15, seed := d.seed.map UInt64.ofNat }
      frames := d.frames
      keys := sortByFrame listed } := by
  obtain ⟨conf, hConf, hConfIs⟩ := Option.map_eq_some_iff.1 (field?_vm hSpeed hSeed)
  obtain ⟨keys, hKeys, hKeysAre⟩ := Option.map_eq_some_iff.1 ((field?_keys d).trans hListed)
  simp only [ofNode?, fields?_sheet, hConf, field?_frames hFrames, hKeys, Option.bind_eq_bind,
    Option.bind_some, hConfIs, hKeysAre]
  cases d.frames <;> rfl

/-- A draft with a key past the sixteen stands for no settings. -/
theorem ofNode?_sheet_of_key (hKey : ∃ e ∈ d.events, 15 < e.key) :
    ofNode? d.sheet.node = none := by
  have hKeys : field? "keys" events? (fieldsOf d) = none :=
    Option.map_eq_none_iff.1 ((field?_keys d).trans (mapM_eventOf?_of_key hKey))
  simp [ofNode?, fields?_sheet, hKeys]

end Draft

end Settings

/-! ## Sorting -/

private theorem KeyEvent.mem_iff_of_frames {first second : List KeyEvent}
    (hFrames : ∀ frame, first.filter (·.frame == frame) = second.filter (·.frame == frame))
    (e : KeyEvent) : e ∈ first ↔ e ∈ second := by
  have hOwn := congrArg (e ∈ ·) (hFrames e.frame)
  simpa [List.mem_filter] using hOwn

/-- **Events sorted by frame are known by those of each frame.** -/
theorem KeyEvent.eq_of_sorted {first second : List KeyEvent} (hFirst : SortedByFrame first)
    (hSecond : SortedByFrame second)
    (hFrames : ∀ frame, first.filter (·.frame == frame) = second.filter (·.frame == frame)) :
    first = second := by
  have hMem := mem_iff_of_frames hFrames
  induction first generalizing second with
  | nil =>
      cases second with
      | nil => rfl
      | cons b second => exact absurd ((hMem b).2 List.mem_cons_self) List.not_mem_nil
  | cons a first ih =>
      cases second with
      | nil => exact absurd ((hMem a).1 List.mem_cons_self) List.not_mem_nil
      | cons b second =>
          obtain ⟨hAfterA, hFirstTail⟩ := List.pairwise_cons.1 hFirst
          obtain ⟨hAfterB, hSecondTail⟩ := List.pairwise_cons.1 hSecond
          have hba : b.frame ≤ a.frame := by
            rcases List.mem_cons.1 ((hMem a).1 List.mem_cons_self) with hSame | hLater
            · exact Nat.le_of_eq (congrArg KeyEvent.frame hSame).symm
            · exact hAfterB a hLater
          have hab : a.frame ≤ b.frame := by
            rcases List.mem_cons.1 ((hMem b).2 List.mem_cons_self) with hSame | hLater
            · exact Nat.le_of_eq (congrArg KeyEvent.frame hSame).symm
            · exact hAfterA b hLater
          have hSame : b.frame = a.frame := Nat.le_antisymm hba hab
          have hHeads := hFrames a.frame
          rw [List.filter_cons_of_pos (by simp),
            List.filter_cons_of_pos (by simp [hSame])] at hHeads
          obtain rfl : a = b := (List.cons.inj hHeads).1
          have hTails (frame : Nat) :
              first.filter (·.frame == frame) = second.filter (·.frame == frame) := by
            have hFrame := hFrames frame
            by_cases hOwn : a.frame = frame
            · rw [List.filter_cons_of_pos (by simpa using hOwn),
                List.filter_cons_of_pos (by simpa using hOwn)] at hFrame
              exact (List.cons.inj hFrame).2
            · rw [List.filter_cons_of_neg (by simpa using hOwn),
                List.filter_cons_of_neg (by simpa using hOwn)] at hFrame
              exact hFrame
          exact congrArg (a :: ·) (ih hFirstTail hSecondTail hTails (mem_iff_of_frames hTails))

/-- Sorting events by frame, told by its result. -/
theorem Settings.eq_sortByFrame_iff {keys listed : List KeyEvent} :
    keys = sortByFrame listed ↔ keys.Perm listed ∧ SortedByFrame keys ∧
      ∀ frame, keys.filter (·.frame == frame) = listed.filter (·.frame == frame) := by
  constructor
  · rintro rfl
    exact ⟨List.mergeSort_perm _ _, sorted_sortByFrame listed, filter_sortByFrame listed⟩
  · rintro ⟨-, hSorted, hFrames⟩
    exact KeyEvent.eq_of_sorted hSorted (sorted_sortByFrame listed) fun frame =>
      (hFrames frame).trans (filter_sortByFrame listed frame).symm

/-- **The text of a draft is read as what the draft says.** If its numbers fit, the text is
accepted and gives exactly these values, with defaults for what was left out; the key
events are the only reordering of those in the draft that is sorted by frame and keeps the
order of those in one frame. If a key is past the sixteen, the whole text is refused. -/
theorem settings_written_and_read (d : Draft) :
    (d.Fits → ∃ s listed, Settings.ofText? d.text = some s ∧
      s.conf.speed = d.speed.getD 15 ∧ s.conf.seed.map UInt64.toNat = d.seed ∧
      s.conf.tone = 440.0 ∧ s.frames = d.frames ∧
      listed.map (fun e => (e.frame, e.key.val, e.pressed)) =
        d.events.map (fun e => (e.frame, e.key, e.pressed.getD true)) ∧
      ∀ keys : List KeyEvent, keys = s.keys ↔ keys.Perm listed ∧ SortedByFrame keys ∧
        ∀ frame, keys.filter (·.frame == frame) = listed.filter (·.frame == frame)) ∧
    ((∃ e ∈ d.events, 15 < e.key) → Settings.ofText? d.text = none) := by
  have hText : Settings.ofText? d.text = Settings.ofNode? d.sheet.node := by
    rw [Settings.ofText?, d.ofText?_text, Option.bind_some]
  constructor
  · intro hFits
    obtain ⟨listed, hListed, hSame⟩ := Settings.mapM_eventOf? hFits.events
    have hRead := Settings.ofNode?_sheet hFits.speed hFits.seed hFits.frames hListed
    refine ⟨_, listed, hText.trans hRead, rfl, ?_, rfl, rfl, hSame,
      fun keys => Settings.eq_sortByFrame_iff⟩
    have hBack : ∀ n ∈ d.seed, (UInt64.toNat ∘ UInt64.ofNat) n = id n := fun n hn =>
      UInt64.toNat_ofNat_of_lt' (hFits.seed n hn)
    calc (d.seed.map UInt64.ofNat).map UInt64.toNat
      _ = d.seed.map id := (Option.map_map ..).trans (Option.map_congr hBack)
      _ = d.seed := Option.map_id_apply
  · intro hKey
    exact hText.trans (Settings.ofNode?_sheet_of_key hKey)

/-- A draft with its events out of order. -/
def Draft.outOfOrder : Draft where
  vm := some (some 20, none)
  frames := some 120
  keys := some [{ frame := 9, key := 3, pressed := false }, { frame := 4, key := 10 }]

/-- The events come out in order; a seventeenth key is refused. -/
theorem settings_written_and_read_of_scripts :
    (∃ s, Settings.ofText? Draft.outOfOrder.text = some s ∧
      s.conf.speed = 20 ∧ s.conf.seed.map UInt64.toNat = none ∧ s.conf.tone = 440.0 ∧
      s.frames = some 120 ∧ s.keys =
        [{ frame := 4, key := 10, pressed := true }, { frame := 9, key := 3, pressed := false }]) ∧
    Settings.ofText? (Draft.text { keys := some [{ frame := 1, key := 16 }] }) = none := by
  have hFits : Draft.outOfOrder.Fits :=
    { speed := by simp [Draft.outOfOrder, Draft.speed, UInt64.size]
      seed := by simp [Draft.outOfOrder, Draft.seed]
      frames := by simp [Draft.outOfOrder, UInt64.size]
      events := by simp [Draft.outOfOrder, Draft.events, UInt64.size] }
  obtain ⟨s, listed, hText, hSpeed, hSeed, hTone, hFrames, hListed, hKeys⟩ :=
    (settings_written_and_read Draft.outOfOrder).1 hFits
  obtain rfl : listed =
      [{ frame := 9, key := 3, pressed := false }, { frame := 4, key := 10, pressed := true }] := by
    refine List.map_injective_iff.2 (fun a b h => ?_) hListed
    obtain ⟨hFrame, hKey, hPressed⟩ : a.frame = b.frame ∧ a.key.val = b.key.val ∧
      a.pressed = b.pressed := by simpa using h
    cases a
    cases b
    cases hFrame
    cases Fin.ext hKey
    cases hPressed
    rfl
  refine ⟨⟨s, hText, hSpeed, hSeed, hTone, hFrames, Eq.symm ((hKeys _).2 ⟨?_, ?_, ?_⟩)⟩,
    (settings_written_and_read { keys := some [{ frame := 1, key := 16 }] }).2
      ⟨_, List.mem_cons_self, by decide⟩⟩
  · exact List.Perm.swap ..
  · simp [SortedByFrame]
  · intro frame
    by_cases hFour : frame = 4
    · subst hFour
      rfl
    · simp [List.filter_cons, Ne.symm hFour]

end Chip8
