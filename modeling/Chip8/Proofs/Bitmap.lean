import Chip8.Proofs.ListingText
import Chip8.Proofs.Overlay
import Mathlib.Data.List.Induction

/-!
# The bitmap over edits

A bitmap is used through two edits, a toggle of the pixel at some coordinates and a
clear. What shows after any number of them is what the toggles since the last clear
leave on a blank bitmap, and so a pixel is set when an odd number of those have met it.

A dump shows the pixels in the order in which they are kept, a row at a time. It can be
read again: without the ends of its lines it is the characters of the pixels.

## Main results

* `Framebuffer.editAll_blank` — a run of edits as flips of a blank bitmap.
* `Framebuffer.mem_litPositions`, `Framebuffer.length_litPositions` — the set pixels, listed and
  counted.
* `Framebuffer.flatten_rows_dump` — the rows of a dump, joined.
* `Framebuffer.ofDump?_dump` — a dump is read as the bitmap it was made of.
* `bitmap_is_parity_map` — runs of edits, and the dump behind each.
-/

namespace Chip8

namespace Framebuffer

/-! ## Edits -/

/-- A change to a bitmap. -/
inductive Edit where
  | toggle (x y : Nat)
  | clear
  deriving DecidableEq, Repr

/-- The bitmap after an edit. -/
def edit : Edit → Framebuffer → Framebuffer
  | .toggle x y, f => (f.toggle x y).2
  | .clear, _ => blank

/-- The bitmap after edits, one after the other. -/
def editAll (edits : List Edit) (f : Framebuffer) : Framebuffer :=
  edits.foldl (fun f e => f.edit e) f

/-- Where an edit toggles. -/
def Edit.toggled? : Edit → Option (Nat × Nat)
  | .toggle x y => some (x, y)
  | .clear => none

/-- Where edits have toggled since the last clear, oldest first. -/
def sinceClear (edits : List Edit) : List (Nat × Nat) :=
  (edits.reverse.takeWhile (· ≠ .clear)).reverse.filterMap Edit.toggled?

theorem sinceClear_toggle (edits : List Edit) (x y : Nat) :
    sinceClear (edits ++ [.toggle x y]) = sinceClear edits ++ [(x, y)] := by
  simp [sinceClear, Edit.toggled?]

theorem sinceClear_clear (edits : List Edit) : sinceClear (edits ++ [.clear]) = [] := by
  simp [sinceClear]

/-- **Edits are the toggles since the last clear**, made on a blank bitmap. -/
theorem editAll_blank (edits : List Edit) :
    blank.editAll edits = blank.flipAll (sinceClear edits) := by
  induction edits using List.reverseRecOn with
  | nil => rfl
  | append_singleton edits e ih =>
      have hLast : blank.editAll (edits ++ [e]) = (blank.editAll edits).edit e :=
        List.foldl_append
      rw [hLast, ih]
      cases e with
      | toggle x y =>
          rw [sinceClear_toggle, flipAll_append]
          rfl
      | clear =>
          rw [sinceClear_clear]
          rfl

/-- A toggle, by what its coordinates are congruent to. -/
theorem pixel_toggle (x y u v : Nat) (f : Framebuffer) : (f.toggle x y).2.pixel u v =
    if x % width = u % width ∧ y % height = v % height then !f.pixel u v else f.pixel u v := by
  by_cases hSame : index x y = index u v
  · rw [if_pos (index_eq_iff.1 hSame), pixel_toggle_same hSame, pixel_congr hSame]
  · rw [if_neg fun h => hSame (index_eq_iff.2 h), pixel_toggle_other hSame]

private theorem flipsAt_eq (u v : Nat) (pixels : List (Nat × Nat)) : flipsAt u v pixels =
    pixels.countP fun (x, y) => x % width = u % width ∧ y % height = v % height := by
  rw [flipsAt]
  congr
  funext p
  rw [Bool.beq_eq_decide_eq, decide_eq_decide]
  exact index_eq_iff

/-! ## The set pixels -/

theorem isBlank_iff (f : Framebuffer) : f.isBlank = true ↔ ∀ u v, f.pixel u v = false := by
  constructor
  · intro h u v
    have hAll := List.all_eq_true.1 h (f.pixel u v) (by simp [pixel])
    simpa using hAll
  · intro h
    have hBlank : f = blank := eq_of_pixel fun u v => by rw [h, pixel_blank]
    rw [hBlank, isBlank, List.all_eq_true]
    intro lit hMem
    have hUnset : lit = false := by
      rw [blank, Vector.toList_replicate] at hMem
      exact List.eq_of_mem_replicate hMem
    rw [hUnset]
    rfl

theorem mem_litPositions (f : Framebuffer) {x y : Nat} :
    x % 64 + 64 * (y % 32) ∈ f.litPositions ↔ f.pixel x y = true := by
  rw [litPositions, List.mem_map]
  constructor
  · rintro ⟨i, hMem, hValue⟩
    have hIndex : i = index x y := Fin.ext hValue
    rw [hIndex] at hMem
    exact (List.mem_filter.1 hMem).2
  · intro hLit
    exact ⟨index x y, List.mem_filter.2 ⟨List.mem_finRange _, hLit⟩, rfl⟩

theorem litPositions_pairwise (f : Framebuffer) : f.litPositions.Pairwise (· < ·) :=
  List.pairwise_map.2 ((List.pairwise_lt_finRange 2048).filter _)

theorem length_litPositions (f : Framebuffer) : f.litPositions.length = f.litCount := by
  have hAll : (List.finRange 2048).map (fun i => f.pixels[i]) = f.pixels.toList := by
    apply List.ext_getElem
    · simp
    · intro i hi hj
      simp
  rw [litPositions, List.length_map, litCount, ← hAll, List.count, List.countP_map,
    List.countP_eq_length_filter]
  simp [Function.comp_def]

theorem isBlank_iff_litCount (f : Framebuffer) : f.isBlank = true ↔ f.litCount = 0 := by
  rw [litCount, List.count_eq_zero, isBlank, List.all_eq_true]
  constructor
  · intro hAll hMem
    cases hAll true hMem
  · intro hNot lit hMem
    cases lit with
    | false => rfl
    | true => exact absurd hMem hNot

/-! ## The order of the pixels -/

/-- Counting row by row is counting through. -/
theorem flatMap_range_map {α : Type} (g : Nat → Nat → α) {w : Nat} (hw : 0 < w) (n : Nat) :
    ((List.range n).flatMap fun r => (List.range w).map fun c => g c r) =
      (List.range (n * w)).map fun i => g (i % w) (i / w) := by
  induction n with
  | zero => rw [Nat.zero_mul]; rfl
  | succ n ih =>
      have hLast : ((List.range w).map (n * w + ·)).map (fun i => g (i % w) (i / w)) =
          (List.range w).map fun c => g c n := by
        rw [List.map_map]
        apply List.map_congr_left
        intro c hc
        have hLess := List.mem_range.1 hc
        show g ((n * w + c) % w) ((n * w + c) / w) = g c n
        rw [Nat.mul_add_mod', Nat.mod_eq_of_lt hLess, Nat.mul_comm, Nat.mul_add_div hw,
          Nat.div_eq_of_lt hLess, Nat.add_zero]
      rw [List.range_succ, List.flatMap_append, ih, Nat.succ_mul, List.range_add, List.map_append,
        hLast, List.flatMap_singleton]

/-- The pixels are kept row after row. -/
theorem toList_pixels (f : Framebuffer) : f.pixels.toList =
    (List.range height).flatMap fun y => (List.range width).map fun x => f.pixel x y := by
  rw [flatMap_range_map (fun x y => f.pixel x y) (by decide)]
  apply List.ext_getElem
  · simp [height, width]
  · intro i hi hj
    have hIndex : (index (i % 64) (i / 64)).val = i := by
      simp only [index]
      have hLess : i < 2048 := by simpa using hi
      omega
    simp [pixel, width, hIndex]

/-! ## Dumps -/

/-- The pixel that a character shows. -/
def lit? (c : Char) : Option Bool :=
  if c = '#' then some true else if c = '.' then some false else none

/-- The bitmap that a text shows, when the rows of it are just the pixels. -/
def ofDump? (text : String) : Option Framebuffer := do
  let lit ← (Listing.rows text).flatten.mapM lit?
  if h : lit.length = 2048 then some ⟨⟨lit.toArray, h⟩⟩ else none

private theorem lit?_pixelChar (lit : Bool) : lit? (pixelChar lit) = some lit := by
  cases lit <;> rfl

private theorem mapM_lit? (lit : List Bool) : (lit.map pixelChar).mapM lit? = some lit := by
  induction lit with
  | nil => rfl
  | cons first rest ih =>
      rw [List.map_cons, List.mapM_cons, lit?_pixelChar, ih]
      rfl

theorem newline_notMem_rowText (y : Nat) (f : Framebuffer) : '\n' ∉ f.rowText y := by
  intro hMem
  obtain ⟨x, _, hChar⟩ := List.mem_map.1 hMem
  cases hLit : f.pixel x y <;> simp [hLit, pixelChar] at hChar

/-- A dump is its rows, with the end of a line behind each. -/
theorem dump_eq_rows (f : Framebuffer) : f.dump =
    String.ofList (((List.range height).map fun y => f.rowText y).flatMap (· ++ ['\n'])) := by
  rw [List.flatMap_map]
  rfl

private theorem rows_dump (f : Framebuffer) :
    Listing.rows f.dump = (List.range height).map fun y => f.rowText y := by
  rw [dump_eq_rows]
  refine Listing.rows_ofList fun row hMem => ?_
  obtain ⟨y, _, rfl⟩ := List.mem_map.1 hMem
  exact f.newline_notMem_rowText y

/-- **The rows of a dump, joined**, are the characters of the pixels in their order. -/
theorem flatten_rows_dump (f : Framebuffer) :
    (Listing.rows f.dump).flatten = f.pixels.toList.map pixelChar := by
  rw [rows_dump, toList_pixels]
  simp [rowText, List.flatMap_def, Function.comp_def]

/-- A dump has a sign for each set pixel. -/
theorem count_flatten_rows_dump (f : Framebuffer) :
    (Listing.rows f.dump).flatten.count '#' = f.litCount := by
  have hSign : (· == '#') ∘ pixelChar = (· == true) := by
    funext lit
    cases lit <;> rfl
  rw [flatten_rows_dump, litCount, List.count, List.countP_map, hSign, List.count]

/-- **A dump is read as the bitmap it was made of.** -/
theorem ofDump?_dump (f : Framebuffer) : ofDump? f.dump = some f := by
  have hLength : f.pixels.toList.length = 2048 := Vector.length_toList
  rw [ofDump?, flatten_rows_dump, mapM_lit?]
  show (if h : f.pixels.toList.length = 2048 then
    some (⟨⟨f.pixels.toList.toArray, h⟩⟩ : Framebuffer) else none) = some f
  rw [dif_pos hLength]
  rfl

/-! ## The map -/

/-- **A bitmap is a map of parities.**  After any edits a pixel is set when the toggles since the
last clear have met it an odd number of times, at whatever coordinates that name it. The next toggle
answers whether its pixel was set and changes no other. The bitmap is blank when no pixel is set.
The set pixels are listed by their positions, ascending, and counted. A dump of the bitmap is 32
rows of 64 characters, each row ended by a newline, with a sign for each set pixel; in their order
these are the pixels that are kept; the dump is read as the bitmap, and no other bitmap has it. -/
theorem bitmap_is_parity_map (edits : List Edit) :
    let f := blank.editAll edits
    let rows := Listing.rows f.dump
    (∀ u v, f.pixel u v = true ↔
      ((sinceClear edits).countP fun (x, y) => x % 64 = u % 64 ∧ y % 32 = v % 32) % 2 = 1) ∧
    (∀ x y, (f.toggle x y).1 = f.pixel x y ∧
      blank.editAll (edits ++ [.toggle x y]) = (f.toggle x y).2 ∧
      ∀ u v, (f.toggle x y).2.pixel u v =
        if x % 64 = u % 64 ∧ y % 32 = v % 32 then !f.pixel u v else f.pixel u v) ∧
    (f.isBlank = true ↔ ∀ u v, f.pixel u v = false) ∧
    (∀ u v, u % 64 + 64 * (v % 32) ∈ f.litPositions ↔ f.pixel u v = true) ∧
    f.litPositions.Pairwise (· < ·) ∧ f.litPositions.length = f.litCount ∧
    (f.isBlank = true ↔ f.litCount = 0) ∧ rows.flatten.count '#' = f.litCount ∧
    f.dump = String.ofList (rows.flatMap (· ++ ['\n'])) ∧
    rows.length = 32 ∧ (∀ row ∈ rows, row.length = 64) ∧
    (∀ u v, u < 64 → v < 32 →
      (rows[v]?.bind (·[u]?)) = some (if f.pixel u v then '#' else '.')) ∧
    rows.flatten = f.pixels.toList.map pixelChar ∧
    ofDump? f.dump = some f ∧
    ∀ g : Framebuffer, g.dump = f.dump → g = f := by
  intro f rows
  have hRows : rows = (List.range height).map fun y => f.rowText y := f.rows_dump
  refine ⟨fun u v => ?_, fun x y => ⟨rfl, List.foldl_append, fun u v => f.pixel_toggle x y u v⟩,
    f.isBlank_iff, fun u v => f.mem_litPositions, f.litPositions_pairwise, f.length_litPositions,
    f.isBlank_iff_litCount, f.count_flatten_rows_dump, ?_, ?_, ?_, fun u v hu hv => ?_,
    f.flatten_rows_dump, f.ofDump?_dump, fun g hSame => ?_⟩
  · rw [show f = _ from editAll_blank edits, pixel_flipAll, pixel_blank, Bool.false_xor,
      decide_eq_true_iff, flipsAt_eq]
    rfl
  · rw [hRows, List.flatMap_map]
    rfl
  · rw [hRows, List.length_map, List.length_range]
    rfl
  · intro row hMem
    rw [hRows] at hMem
    obtain ⟨y, _, rfl⟩ := List.mem_map.1 hMem
    rw [rowText, List.length_map, List.length_range]
    rfl
  · rw [hRows, List.getElem?_map, List.getElem?_range (show v < height from hv)]
    show ((List.range width).map fun x => pixelChar (f.pixel x v))[u]? = _
    rw [List.getElem?_map, List.getElem?_range (show u < width from hu)]
    rfl
  · have hRead := g.ofDump?_dump
    rw [hSame, f.ofDump?_dump] at hRead
    exact (Option.some.inj hRead).symm

end Framebuffer

end Chip8
