import Chip8.Proofs.FontIntegrity

/-!
# Drawing

`Dxyn` flips the pixels of a sprite one after the other, row by row and from
left to right, and raises the flag if any flip erased its pixel. It makes all
its calls, whatever the answers are, at coordinates that the devices may wrap
as they like.

The devices in memory wrap at the edges of the screen. A sprite is at most eight
pixels wide and fifteen high, less than the screen is, so two of its pixels never
fall on one another (`Cpu.spritePixels_apart`). Then the bitmap is the old one with
the sprite laid over it by exclusive or, and the flag is raised if some pixel of
the sprite was lit before.

## Main results

* `Framebuffer.pixel_flipAll` — any flips, counted modulo two.
* `Cpu.spritePixels_eq` — which pixels a sprite flips, and in which order.
* `draw_is_exclusive_or` — the instruction on any devices, and on those in memory.
-/

namespace Chip8

/-! ## Flips of a bitmap -/

namespace Framebuffer

/-- The bitmap with pixels flipped, one after the other. -/
def flipAll (pixels : List (Nat × Nat)) (f : Framebuffer) : Framebuffer :=
  pixels.foldl (fun f p => (f.toggle p.1 p.2).2) f

/-- How many flips meet the pixel at a coordinate. -/
def flipsAt (u v : Nat) (pixels : List (Nat × Nat)) : Nat :=
  pixels.countP fun p => index p.1 p.2 == index u v

theorem pixel_congr {x y u v : Nat} (hSame : index x y = index u v) (f : Framebuffer) :
    f.pixel x y = f.pixel u v := by
  simp [pixel, hSame]

/-- **Flips count modulo two.** -/
theorem pixel_flipAll (pixels : List (Nat × Nat)) (f : Framebuffer) (u v : Nat) :
    (f.flipAll pixels).pixel u v = (f.pixel u v ^^ decide (flipsAt u v pixels % 2 = 1)) := by
  induction pixels generalizing f with
  | nil => simp [flipAll, flipsAt]
  | cons p rest ih =>
      have hRest := ih (f.toggle p.1 p.2).2
      rw [flipAll, List.foldl_cons, ← flipAll, hRest]
      by_cases hSame : index p.1 p.2 = index u v
      · have hCount : flipsAt u v (p :: rest) = flipsAt u v rest + 1 := by
          rw [flipsAt, List.countP_cons_of_pos (by simpa using hSame), ← flipsAt]
        rw [pixel_toggle_same hSame, hCount, pixel_congr hSame]
        rcases Nat.mod_two_eq_zero_or_one (flipsAt u v rest) with hEven | hOdd
        · have hNext : (flipsAt u v rest + 1) % 2 = 1 := by omega
          simp [hEven, hNext]
        · have hNext : (flipsAt u v rest + 1) % 2 = 0 := by omega
          simp [hOdd, hNext]
      · have hCount : flipsAt u v (p :: rest) = flipsAt u v rest := by
          rw [flipsAt, List.countP_cons_of_neg (by simpa using hSame), ← flipsAt]
        rw [pixel_toggle_other hSame, hCount]

/-- A corner can be wrapped before a pixel is counted from it. -/
theorem pixel_wrapped (x y b r : Nat) (f : Framebuffer) :
    f.pixel (x % 64 + b) (y % 32 + r) = f.pixel (x + b) (y + r) := by
  apply pixel_congr
  rw [index_eq_iff, width, height]
  omega

/-- No two of the coordinates are of one pixel. -/
def Apart (pixels : List (Nat × Nat)) : Prop :=
  pixels.Pairwise fun p q => index p.1 p.2 ≠ index q.1 q.2

private theorem flipsAt_of_apart {pixels : List (Nat × Nat)} (h : Apart pixels) (u v : Nat) :
    flipsAt u v pixels = if ∃ p ∈ pixels, index p.1 p.2 = index u v then 1 else 0 := by
  have hNodup : (pixels.map fun p => index p.1 p.2).Nodup :=
    List.nodup_iff_pairwise_ne.2 (List.pairwise_map.2 h)
  have hCount : flipsAt u v pixels = (pixels.map fun p => index p.1 p.2).count (index u v) := by
    rw [List.count, List.countP_map]
    rfl
  rw [hCount, hNodup.count]
  simp only [List.mem_map]

/-- Each pixel that is met is flipped, when none is met twice. -/
theorem pixel_flipAll_of_apart {pixels : List (Nat × Nat)} (h : Apart pixels) (f : Framebuffer)
    (u v : Nat) : (f.flipAll pixels).pixel u v =
      (f.pixel u v ^^ decide (∃ p ∈ pixels, index p.1 p.2 = index u v)) := by
  rw [pixel_flipAll, flipsAt_of_apart h]
  split
  next hMet => simp [hMet]
  next hNone => simp [hNone]

end Framebuffer

/-! ## Answers of devices -/

namespace Devices

variable {δ : Type} [Devices δ]

/-- What devices answer when pixels are flipped one after the other. -/
def replies : List (Nat × Nat) → δ → List Bool
  | [], _ => []
  | (x, y) :: rest, d => (toggle x y d).1 :: replies rest (toggle x y d).2

private theorem length_replies (pixels : List (Nat × Nat)) (d : δ) :
    (replies pixels d).length = pixels.length := by
  induction pixels generalizing d with
  | nil => rfl
  | cons p rest ih => exact congrArg (· + 1) (ih (toggle p.1 p.2 d).2)

private theorem toggleAll_eq_any (pixels : List (Nat × Nat)) (d : δ) :
    (toggleAll pixels d).1 = (replies pixels d).any id := by
  induction pixels generalizing d with
  | nil => rfl
  | cons p rest ih => exact congrArg ((toggle p.1 p.2 d).1 || ·) (ih (toggle p.1 p.2 d).2)

/-- **All flips are made**, in order, whatever the answers are. -/
theorem calls_toggleAll (pixels : List (Nat × Nat)) (r : Recorded δ) :
    (toggleAll pixels r).2.calls.toList = r.calls.toList ++
      List.zipWith (fun p erased => Call.toggle p.1 p.2 erased) pixels (replies pixels r) := by
  induction pixels generalizing r with
  | nil => simp [toggleAll]
  | cons p rest ih =>
      obtain ⟨x, y⟩ := p
      rw [toggleAll, replies, List.zipWith_cons_cons]
      refine (ih (toggle x y r).2).trans ?_
      simp [toggle]

end Devices

namespace Headless

open Framebuffer

theorem toggleAll_eq (pixels : List (Nat × Nat)) (d : Headless) :
    (Devices.toggleAll pixels d).2 = { d with display := d.display.flipAll pixels } := by
  induction pixels generalizing d with
  | nil => rfl
  | cons p rest ih => exact ih (Devices.toggle p.1 p.2 d).2

/-- When no pixel is flipped twice, the answers tell which were set before. -/
theorem replies_of_apart {pixels : List (Nat × Nat)} (h : Apart pixels) (d : Headless) :
    Devices.replies pixels d = pixels.map fun p => d.display.pixel p.1 p.2 := by
  induction pixels generalizing d with
  | nil => rfl
  | cons p rest ih =>
      obtain ⟨hFirst, hRest⟩ := List.pairwise_cons.1 h
      rw [List.map_cons]
      refine congrArg (d.display.pixel p.1 p.2 :: ·) ?_
      rw [ih hRest]
      apply List.map_congr_left
      intro q hq
      exact pixel_toggle_other (hFirst q hq) d.display

end Headless

/-! ## The pixels of a sprite -/

/-- The rows of a sprite in memory, with the coordinates of their set pixels. -/
theorem Sprite.pixelsAt_slice (x y address count : Nat) (m : Memory) :
    pixelsAt x y (m.slice address count) = (List.range count).flatMap fun r =>
      (rowColumns (m.read (address + r))).map fun b => (x + b, y + r) := by
  induction count with
  | zero => rfl
  | succ count ih =>
      have hLength : (m.slice address count).length = count := by simp [Memory.slice]
      rw [Memory.slice_succ, pixelsAt_append, ih, hLength, List.range_succ, List.flatMap_append,
        List.flatMap_singleton, pixelsAt, pixelsAt, List.append_nil]

namespace Cpu

/-- Whether a pixel is set in the sprite at the index: in a row from the top, and in a column from
the left. -/
def spriteBit (c : Cpu) (row column : Nat) : Bool :=
  (c.memory.read ((c.index.toNat + row) % memorySize)).toNat.testBit (7 - column)

/-- **The pixels that a sprite flips**, row by row and from left to right. -/
theorem spritePixels_eq (x y height : Fin 16) (c : Cpu) :
    c.spritePixels x y height = (List.range height.val).flatMap fun r =>
      ((List.range 8).filter (c.spriteBit r)).map fun b =>
        ((c.reg x).toNat + b, (c.reg y).toNat + r) := by
  have hRow (r : Nat) :
      Sprite.rowColumns (c.memory.read (c.index.toNat + r)) =
        (List.range 8).filter (c.spriteBit r) := by
    rw [Memory.read_congr (Nat.mod_mod _ _).symm]
    rfl
  rw [spritePixels, indexed, Sprite.pixelsAt_slice]
  simp only [hRow]

theorem mem_spritePixels {x y height : Fin 16} {c : Cpu} {p : Nat × Nat} :
    p ∈ c.spritePixels x y height ↔ ∃ r < height.val, ∃ b < 8, c.spriteBit r b = true ∧
      p = ((c.reg x).toNat + b, (c.reg y).toNat + r) := by
  rw [spritePixels_eq]
  simp only [List.mem_flatMap, List.mem_map, List.mem_filter, List.mem_range, and_assoc, eq_comm]

/-- **No two pixels of a sprite fall on one another**, however it wraps at the edges. -/
theorem spritePixels_apart (x y height : Fin 16) (c : Cpu) :
    Framebuffer.Apart (c.spritePixels x y height) := by
  have hHeight := height.isLt
  rw [Framebuffer.Apart, spritePixels_eq, List.pairwise_flatMap]
  constructor
  · intro r _
    rw [List.pairwise_map]
    refine (List.pairwise_lt_range.filter _).imp_of_mem ?_
    intro a b ha hb hLess hSame
    have hColumn : b < 8 := List.mem_range.1 (List.mem_filter.1 hb).1
    obtain ⟨hWidth, -⟩ := Framebuffer.index_eq_iff.1 hSame
    simp only [Framebuffer.width] at hWidth
    omega
  · refine List.pairwise_lt_range.imp_of_mem ?_
    intro r s _ hs hLess p hp q hq hSame
    obtain ⟨a, -, rfl⟩ := List.mem_map.1 hp
    obtain ⟨b, -, rfl⟩ := List.mem_map.1 hq
    have hRow : s < height.val := List.mem_range.1 hs
    obtain ⟨-, hRows⟩ := Framebuffer.index_eq_iff.1 hSame
    simp only [Framebuffer.height] at hRows
    omega

/-- What some pixel of a sprite has, some set bit of it has. -/
theorem exists_mem_spritePixels {x y height : Fin 16} {c : Cpu} {P : Nat → Nat → Prop} :
    (∃ p ∈ c.spritePixels x y height, P p.1 p.2) ↔
      ∃ r < height.val, ∃ b < 8, c.spriteBit r b = true ∧
        P ((c.reg x).toNat + b) ((c.reg y).toNat + r) := by
  constructor
  · rintro ⟨p, hp, h⟩
    obtain ⟨r, hr, b, hb, hBit, rfl⟩ := mem_spritePixels.1 hp
    exact ⟨r, hr, b, hb, hBit, h⟩
  · rintro ⟨r, hr, b, hb, hBit, h⟩
    exact ⟨_, mem_spritePixels.2 ⟨r, hr, b, hb, hBit, rfl⟩, h⟩

/-- Where a pixel of the sprite falls on the screen. -/
theorem exists_spritePixels_iff {x y height : Fin 16} {c : Cpu} {u v : Nat} :
    (∃ p ∈ c.spritePixels x y height, Framebuffer.index p.1 p.2 = Framebuffer.index u v) ↔
      ∃ r < height.val, ∃ b < 8, c.spriteBit r b = true ∧
        ((c.reg x).toNat % 64 + b) % 64 = u % 64 ∧ ((c.reg y).toNat % 32 + r) % 32 = v % 32 := by
  simp only [Framebuffer.index_eq_iff, Framebuffer.width, Framebuffer.height, Nat.mod_add_mod]
  exact exists_mem_spritePixels (P := fun a b => a % 64 = u % 64 ∧ b % 32 = v % 32)

/-- Whether a pixel is lit that the sprite falls on. -/
theorem exists_lit_iff {x y height : Fin 16} {c : Cpu} {f : Framebuffer} :
    (∃ p ∈ c.spritePixels x y height, f.pixel p.1 p.2 = true) ↔
      ∃ r < height.val, ∃ b < 8, c.spriteBit r b = true ∧
        f.pixel ((c.reg x).toNat % 64 + b) ((c.reg y).toNat % 32 + r) = true := by
  simp only [Framebuffer.pixel_wrapped]
  exact exists_mem_spritePixels (P := fun u v => f.pixel u v = true)

end Cpu

/-! ## The instruction -/

namespace Console

variable {δ : Type} [Devices δ]

theorem execute_draw (x y height : Fin 16) (c : Console δ) :
    c.execute (Word.ofNibbles 13 x y height) = (c.mapCpu Cpu.advance).drawSprite x y height :=
  (execute_of_instr (Instr.ofWord?_draw x y height) c).trans rfl

/-- A draw changes the program counter, and raises the flag if any flip erased its pixel. -/
theorem execute_draw_machine (x y height : Fin 16) (c : Console δ) :
    (c.execute (Word.ofNibbles 13 x y height)).state.machine = { c.machine with
      cpu := c.machine.cpu.advance.setReg Reg.flag
        (if true ∈ Devices.replies (c.machine.cpu.spritePixels x y height) c.devices
          then 1 else 0) } := by
  have hFlag : flagValue
      (Devices.toggleAll (c.machine.cpu.spritePixels x y height) c.devices).1 =
        if true ∈ Devices.replies (c.machine.cpu.spritePixels x y height) c.devices
          then 1 else 0 := by
    rw [Devices.toggleAll_eq_any, flagValue]
    simp
  rw [execute_draw, ← hFlag]
  rfl

theorem execute_draw_devices (x y height : Fin 16) (c : Console δ) :
    (c.execute (Word.ofNibbles 13 x y height)).state.devices =
      (Devices.toggleAll (c.machine.cpu.spritePixels x y height) c.devices).2 := by
  rw [execute_draw]
  rfl

end Console

/-- **Drawing is exclusive or, with collision detection.**  On any devices, `Dxyn` flips each pixel
that is set in one of the `n` rows at the index, once, row by row and from left to right, at
coordinates counted from the values of the two registers before and not wrapped. All flips are made,
and then the flag tells whether any of them erased its pixel; but for the flag and the program
counter the machine is the same. On the devices in memory the new bitmap is the old one with the
sprite laid over it by exclusive or, wrapped at both edges; no pixel is flipped twice, and the flag
tells whether a set pixel of the sprite was lit before. -/
theorem draw_is_exclusive_or (x y n : Fin 16) :
    let word := Word.ofNibbles 13 x y n
    let pixels (cpu : Cpu) : List (Nat × Nat) := (List.range n.val).flatMap fun r =>
      ((List.range 8).filter fun b => cpu.spriteBit r b).map fun b =>
        ((cpu.reg x).toNat + b, (cpu.reg y).toNat + r)
    (∀ (δ : Type) [Devices δ] (c : Console δ),
      let cpu := c.machine.cpu
      (c.execute word).result = .ok .draw ∧
      (c.execute word).state.machine = { c.machine with cpu := { cpu with
        pc := cpu.pc + 2
        registers := cpu.registers.set 15
          (if true ∈ Devices.replies (pixels cpu) c.devices then 1 else 0) } }) ∧
    (∀ (δ : Type) [Devices δ] (c : Console (Recorded δ)),
      let cpu := c.machine.cpu
      let replies := Devices.replies (pixels cpu) c.devices
      replies.length = (pixels cpu).length ∧
      (c.execute word).state.devices.calls.toList = c.devices.calls.toList ++
        List.zipWith (fun p erased => Call.toggle p.1 p.2 erased) (pixels cpu) replies) ∧
    ∀ c : Console Headless,
      let cpu := c.machine.cpu
      let left := (cpu.reg x).toNat % 64
      let top := (cpu.reg y).toNat % 32
      let old := c.devices
      let new := (c.execute word).state.devices
      let flag := (c.execute word).state.machine.cpu.reg 15
      let covers (u v : Nat) : Prop := ∃ r < n.val, ∃ b < 8, cpu.spriteBit r b = true ∧
        (left + b) % 64 = u % 64 ∧ (top + r) % 32 = v % 32
      let collides : Prop := ∃ r < n.val, ∃ b < 8, cpu.spriteBit r b = true ∧
        old.display.pixel (left + b) (top + r) = true
      (∀ u v, (covers u v → new.display.pixel u v = !old.display.pixel u v) ∧
        (¬ covers u v → new.display.pixel u v = old.display.pixel u v)) ∧
      (pixels cpu).Pairwise (fun p q => (p.1 % 64, p.2 % 32) ≠ (q.1 % 64, q.2 % 32)) ∧
      (collides → flag = 1) ∧ (¬ collides → flag = 0) ∧
      new.keys = old.keys ∧ new.tone = old.tone := by
  intro word pixels
  have hPixels (cpu : Cpu) : pixels cpu = cpu.spritePixels x y n :=
    (Cpu.spritePixels_eq x y n cpu).symm
  refine ⟨fun δ _ c => ⟨?_, ?_⟩, fun δ _ c => ⟨Devices.length_replies _ _, ?_⟩, fun c => ?_⟩
  · rw [Console.execute_draw]
    rfl
  · rw [Console.execute_draw_machine, hPixels]
    rfl
  · rw [Console.execute_draw_devices, hPixels]
    exact Devices.calls_toggleAll _ _
  · intro cpu left top old new flag covers collides
    have hApart := cpu.spritePixels_apart x y n
    have hNew : new = { old with display := old.display.flipAll (cpu.spritePixels x y n) } := by
      rw [← Headless.toggleAll_eq]
      exact c.execute_draw_devices x y n
    have hFlag : flag = if true ∈ Devices.replies (cpu.spritePixels x y n) old then 1 else 0 := by
      simp only [flag, word, Console.execute_draw_machine]
      exact Cpu.reg_setReg_self Reg.flag _ _
    have hCollides : true ∈ Devices.replies (cpu.spritePixels x y n) old ↔ collides := by
      rw [Headless.replies_of_apart hApart, List.mem_map]
      exact Cpu.exists_lit_iff
    refine ⟨fun u v => ?_, ?_, ?_, ?_, ?_, ?_⟩
    · have hCovers : (∃ p ∈ cpu.spritePixels x y n,
          Framebuffer.index p.1 p.2 = Framebuffer.index u v) ↔ covers u v :=
        Cpu.exists_spritePixels_iff
      rw [hNew]
      show (covers u v → (old.display.flipAll _).pixel u v = _) ∧
        (¬ covers u v → (old.display.flipAll _).pixel u v = _)
      rw [Framebuffer.pixel_flipAll_of_apart hApart]
      constructor
      · intro h
        rw [decide_eq_true (hCovers.2 h), Bool.xor_true]
      · intro h
        rw [decide_eq_false (mt hCovers.1 h), Bool.xor_false]
    · rw [hPixels]
      refine hApart.imp fun hNe hSame => hNe ?_
      exact Framebuffer.index_eq_iff.2 (Prod.mk.inj hSame)
    · intro h
      rw [hFlag, if_pos (hCollides.2 h)]
    · intro h
      rw [hFlag, if_neg (mt hCollides.1 h)]
    · rw [hNew]
    · rw [hNew]

end Chip8
