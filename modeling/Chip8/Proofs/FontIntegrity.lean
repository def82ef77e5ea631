import Chip8.Console.Operation
import Chip8.Proofs.Execution
import Chip8.Proofs.Run

/-!
# The font stays intact

The glyphs lie in the lowest 80 cells and every store that meets one of them is
dropped, wherever it starts and also when it wraps around the end of memory.
So the glyphs are there in every state a host can bring a machine into, and a
program that points the index at a digit and draws five rows gets that digit.

## Main results

* `font_kept` — the glyphs are an invariant of everything a host can do.
* `glyph_drawn` — pointing at a digit and drawing it flips the pixels of its glyph.
-/

namespace Chip8

/-! ## The glyphs in memory -/

namespace Memory

/-- The glyphs are where they belong. -/
def HoldsFont (m : Memory) : Prop := m.slice 0 Font.size = Font.glyphs.toList

private theorem isProtected_of_lt {a : Nat} (h : a < Font.size) : isProtected a = true := by
  rw [isProtected_iff]
  exact Nat.lt_of_le_of_lt (Nat.mod_le _ _) h

theorem HoldsFont.storeAll {m : Memory} (h : m.HoldsFont) (a : Nat) (values : List UInt8) :
    (m.storeAll a values).HoldsFont := by
  rw [HoldsFont, ← h]
  apply List.map_congr_left
  intro k hk
  have hGlyph : isProtected (0 + k) = true := isProtected_of_lt (by simpa using hk)
  exact read_storeAll_of_protected hGlyph a values m

/-- A program that is loaded brings the glyphs along, whatever its size. -/
theorem holdsFont_ofProgram (program : List UInt8) : (ofProgram program).HoldsFont := by
  apply List.ext_getElem
  · simp [slice, Font.size]
  · intro k hk hk'
    have hSize : k < 80 := by simpa [slice, Font.size] using hk
    have hCell : k % 4096 = k := Nat.mod_eq_of_lt (by omega)
    simp [slice, read, cell, ofProgram, hCell, hSize]

/-- A run inside a run. -/
theorem slice_eq_take_drop (m : Memory) (a : Nat) {k count total : Nat}
    (h : k + count ≤ total) :
    m.slice (a + k) count = ((m.slice a total).drop k).take count := by
  apply List.ext_getElem
  · simp [slice]
    omega
  · intro i hi hi'
    simp [slice, Nat.add_assoc]

end Memory

/-- What executing a word leaves of the font. -/
theorem font_kept {δ : Type} [Devices δ] :
    Invariant (δ := δ) (fun _ => True) fun c => c.machine.cpu.memory.HoldsFont := by
  have hExecute (c : Console δ) (word : Word) (h : c.machine.cpu.memory.HoldsFont) :
      (c.execute word).state.machine.cpu.memory.HoldsFont := by
    obtain ⟨values, hMemory⟩ := c.execute_memory word
    rw [hMemory]
    exact h.storeAll _ values
  refine
    { load := ?_
      execute := fun c word _ h => hExecute c word h
      keyDown := ?_
      step := Console.step_kept hExecute fun _ _ h => h
      finishBatch := ?_ }
  · intro c program _ h
    unfold Machine.load
    split
    · exact Memory.holdsFont_ofProgram program
    · exact h
  · intro c key _ h
    unfold Machine.keyDown
    split
    · exact h
    · exact h
  · intro c h
    unfold Console.finishBatch Console.updateTone
    split <;> split <;> exact h

/-! ## Drawing a digit -/

namespace Font

/-- The rows of the glyph of a digit. -/
def glyph (digit : Fin 16) : List UInt8 :=
  (glyphs.toList.drop (glyphHeight * digit.val)).take glyphHeight

/-- The set pixels of a digit with its upper left corner at `(u, v)`, row by row and from the
left. -/
def litPixels (digit : Fin 16) (u v : Nat) : List (Nat × Nat) :=
  (glyph digit).zipIdx.flatMap fun (row, r) =>
    ((List.range 8).filter fun c => row.toNat.testBit (7 - c)).map fun c => (u + c, v + r)

end Font

/-- The coordinates of a call that flips a pixel. -/
def Call.flipped? : Call → Option (Nat × Nat)
  | .toggle x y _ => some (x, y)
  | _ => none

/-- Flipping pixels calls for each of them once, in order, and for nothing else. -/
theorem Devices.toggleAll_calls {δ : Type} [Devices δ] (pixels : List (Nat × Nat))
    (r : Recorded δ) :
    (Devices.toggleAll pixels r).2.calls.toList.map Call.flipped? =
      r.calls.toList.map Call.flipped? ++ pixels.map some := by
  induction pixels generalizing r with
  | nil => simp [Devices.toggleAll]
  | cons pixel rest ih =>
      obtain ⟨x, y⟩ := pixel
      rw [Devices.toggleAll]
      dsimp only
      rw [ih]
      simp [Devices.toggle, Call.flipped?]

private theorem Memory.HoldsFont.slice_glyph {m : Memory} (h : m.HoldsFont) (digit : Fin 16) :
    m.slice (Font.glyphHeight * digit.val) Font.glyphHeight = Font.glyph digit := by
  have hInside : Font.glyphHeight * digit.val + Font.glyphHeight ≤ Font.size := by
    have hDigit := digit.isLt
    unfold Font.glyphHeight Font.size
    omega
  have hSlice := m.slice_eq_take_drop 0 hInside
  rw [Nat.zero_add, h] at hSlice
  exact hSlice

private theorem Instr.ofWord?_pointGlyph (x : Fin 16) :
    Instr.ofWord? (Word.ofNibbles 15 x 2 9) = some (.pointGlyph x) :=
  ofWord?_transfer x 2 9

/-- **Pointing at a digit and drawing it flips the pixels of its glyph**, on any devices and
whatever they answer, as long as the glyphs are in memory. -/
theorem glyph_drawn {δ : Type} [Devices δ] {m : Machine} (hFont : m.cpu.memory.HoldsFont)
    (devices : δ) (x a b : Fin 16) {digit : Fin 16} (hDigit : (m.cpu.reg x).toNat = digit.val) :
    let start : Console (Recorded δ) := ⟨m, { devices }⟩
    let pointed := start.execute (Word.ofNibbles 15 x 2 9)
    let drawn := pointed.state.execute (Word.ofNibbles 13 a b 5)
    pointed.result = .ok .proceed ∧ drawn.result = .ok .draw ∧
      drawn.state.devices.calls.toList.map Call.flipped? =
        (Font.litPixels digit (m.cpu.reg a).toNat (m.cpu.reg b).toNat).map some := by
  intro start pointed drawn
  have hPointed : pointed = (Instr.pointGlyph x).perform (start.mapCpu Cpu.advance) := by
    simp only [pointed, Console.execute, Instr.ofWord?_pointGlyph]
  have hDrawn : drawn = (Instr.draw a b 5).perform (pointed.state.mapCpu Cpu.advance) := by
    simp only [drawn, Console.execute, Instr.ofWord?_draw]
  have hIndex : pointed.state.machine.cpu.index.toNat = Font.glyphHeight * digit.val := by
    have hLt := digit.isLt
    rw [hPointed]
    change (UInt16.ofNat (Font.glyphHeight * (m.cpu.reg x).toNat)).toNat = _
    rw [hDigit, UInt16.toNat_ofNat', Font.glyphHeight]
    omega
  have hRows : pointed.state.machine.cpu.advance.indexed (5 : Fin 16).val =
      Font.glyph digit := by
    change pointed.state.machine.cpu.memory.slice pointed.state.machine.cpu.index.toNat
      Font.glyphHeight = Font.glyph digit
    rw [hIndex, hPointed]
    exact hFont.slice_glyph digit
  have hPixels : (pointed.state.machine.cpu.advance).spritePixels a b 5 =
      Font.litPixels digit (m.cpu.reg a).toNat (m.cpu.reg b).toNat := by
    have hReg (k : Reg) : pointed.state.machine.cpu.advance.reg k = m.cpu.reg k := by
      rw [hPointed]
      rfl
    rw [Cpu.spritePixels, hReg, hReg, Sprite.pixelsAt_eq_flatMap, hRows]
    rfl
  refine ⟨by rw [hPointed]; rfl, by rw [hDrawn]; rfl, ?_⟩
  rw [hDrawn]
  change (Devices.toggleAll ((pointed.state.machine.cpu.advance).spritePixels a b 5)
    pointed.state.devices).2.calls.toList.map Call.flipped? = _
  rw [hPixels, Devices.toggleAll_calls, hPointed]
  rfl

/-! ## Every state a host can reach -/

/-- **The font is intact in every state reached**, and a digit drawn in such a state is drawn
with its own glyph, whatever the program wrote before. -/
theorem font_intact {δ : Type} [Devices δ] (conf : Conf) (random : RandomSource) (devices : δ)
    (ops : List Operation) :
    let c := (⟨Machine.new conf random, devices⟩ : Console δ).afterAll ops
    c.machine.cpu.memory.slice 0 Font.size = Font.glyphs.toList ∧
      ∀ x a b digit : Fin 16, (c.machine.cpu.reg x).toNat = digit.val →
        let start : Console (Recorded δ) := ⟨c.machine, { devices := c.devices }⟩
        let pointed := start.execute (Word.ofNibbles 15 x 2 9)
        let drawn := pointed.state.execute (Word.ofNibbles 13 a b 5)
        pointed.result = .ok .proceed ∧ drawn.result = .ok .draw ∧
          drawn.state.devices.calls.toList.map Call.flipped? =
            (Font.litPixels digit (c.machine.cpu.reg a).toNat
              (c.machine.cpu.reg b).toNat).map some := by
  intro c
  have hStart : (Machine.new conf random).cpu.memory.HoldsFont := Memory.holdsFont_ofProgram []
  have hFont : c.machine.cpu.memory.HoldsFont :=
    font_kept.afterAll (c := ⟨Machine.new conf random, devices⟩) (fun _ _ => trivial) hStart
  refine ⟨hFont, ?_⟩
  intro x a b digit hDigit
  exact glyph_drawn hFont c.devices x a b hDigit

/-- Registers stored from the last but one cell on, so that four of them meet the glyph of zero;
then the digit seven is drawn at `(V0, V1)`. -/
theorem font_intact_after_wrapping_store :
    let ops : List Operation := [.execute 0x6107, .execute 0xAFFE, .execute 0xF555]
    let c := (⟨Machine.new {} (.cycling [1]), {}⟩ : Console Headless).afterAll ops
    (c.machine.cpu.reg 1).toNat = (7 : Fin 16).val ∧
      let start : Console (Recorded Headless) := ⟨c.machine, { devices := c.devices }⟩
      let drawn := (start.execute (Word.ofNibbles 15 1 2 9)).state.execute
        (Word.ofNibbles 13 0 1 5)
      drawn.state.devices.calls.toList.map Call.flipped? =
        (Font.litPixels 7 (c.machine.cpu.reg 0).toNat (c.machine.cpu.reg 1).toNat).map some := by
  intro ops c
  have hDigit : (c.machine.cpu.reg 1).toNat = (7 : Fin 16).val := by decide
  have hDrawn := (font_intact {} (.cycling [1]) ({} : Headless) ops).2 1 0 1 7 hDigit
  exact ⟨hDigit, hDrawn.2.2⟩

end Chip8
