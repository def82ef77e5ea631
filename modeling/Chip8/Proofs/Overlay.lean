import Chip8.Console.Operation
import Chip8.Proofs.Drawing

/-!
# Sprites laid over one another

A draw whose coordinates are not in the flag register reads nothing that a draw
writes: it takes its sprite from memory and its corner from two registers, and
leaves only the bitmap and the flag changed. So a list of such draws flips the
pixels of all its sprites, each as it was at the start, and since flips count
modulo two, neither their order nor a sprite laid twice over itself can be seen.

## Main results

* `Framebuffer.flipAll_perm`, `Framebuffer.flipAll_twice` — flips in another order, and made twice.
* `Console.display_draws` — the bitmap that a list of draws leaves.
* `draws_form_abelian_involution` — draws in any order, draws in pairs, and the flag of a second
  draw.
-/

namespace Chip8

/-! ## Flips in any order -/

namespace Framebuffer

/-- A bitmap is known by its pixels. -/
theorem eq_of_pixel {f g : Framebuffer} (h : ∀ u v, f.pixel u v = g.pixel u v) : f = g := by
  cases f with
  | mk first =>
      cases g with
      | mk second =>
          congr
          apply Vector.ext
          intro i hi
          have hIndex : index i (i / 64) = ⟨i, hi⟩ := by
            apply Fin.ext
            simp only [index]
            omega
          have hPixel := h i (i / 64)
          simp only [pixel, hIndex] at hPixel
          exact hPixel

theorem flipAll_append (first later : List (Nat × Nat)) (f : Framebuffer) :
    f.flipAll (first ++ later) = (f.flipAll first).flipAll later :=
  List.foldl_append

/-- **Flips in another order leave the same bitmap.** -/
theorem flipAll_perm {pixels permuted : List (Nat × Nat)} (h : pixels.Perm permuted)
    (f : Framebuffer) : f.flipAll pixels = f.flipAll permuted := by
  apply eq_of_pixel
  intro u v
  rw [pixel_flipAll, pixel_flipAll, flipsAt, h.countP_eq, ← flipsAt]

/-- **Flips that are made twice have no effect.** -/
theorem flipAll_twice (pixels : List (Nat × Nat)) (f : Framebuffer) :
    f.flipAll (pixels ++ pixels) = f := by
  apply eq_of_pixel
  intro u v
  have hCount : flipsAt u v (pixels ++ pixels) = flipsAt u v pixels + flipsAt u v pixels :=
    List.countP_append
  have hEven : ¬ (flipsAt u v pixels + flipsAt u v pixels) % 2 = 1 := by omega
  rw [pixel_flipAll, hCount, decide_eq_false hEven, Bool.xor_false]

end Framebuffer

/-! ## Draws that do not read the flag -/

/-- A word is `Dxyn` with both coordinates in registers other than `VF`. -/
structure Word.IsOverlay (w : Word) : Prop where
  family : w.family.val = 0xD
  x : w.x ≠ Reg.flag
  y : w.y ≠ Reg.flag

private theorem Word.isOverlay_ofNibbles {x y : Fin 16} (hx : x ≠ Reg.flag) (hy : y ≠ Reg.flag)
    (n : Fin 16) : (ofNibbles 13 x y n).IsOverlay where
  family := by rw [family_ofNibbles]; rfl
  x := by rwa [x_ofNibbles]
  y := by rwa [y_ofNibbles]

private theorem Word.IsOverlay.eq_draw {w : Word} (h : w.IsOverlay) :
    w = ofNibbles 13 w.x w.y w.n := by
  have hFamily : w.family = 13 := Fin.ext h.family
  apply eq_of_nibbles
  · rw [family_ofNibbles, hFamily]
  · rw [x_ofNibbles]
  · rw [y_ofNibbles]
  · rw [n_ofNibbles]

namespace Cpu

/-- Two processors with the same sprites: they agree on memory, the index and all registers but
the flag. -/
structure SameSprites (c d : Cpu) : Prop where
  memory : c.memory = d.memory
  index : c.index = d.index
  reg : ∀ k ≠ Reg.flag, c.reg k = d.reg k

/-- The pixels that a draw flips. -/
def drawnBy (w : Word) (c : Cpu) : List (Nat × Nat) := c.spritePixels w.x w.y w.n

private theorem SameSprites.drawnBy {c d : Cpu} (h : SameSprites c d) {w : Word}
    (hOverlay : w.IsOverlay) : c.drawnBy w = d.drawnBy w := by
  simp only [Cpu.drawnBy, spritePixels, indexed, h.memory, h.index, h.reg _ hOverlay.x,
    h.reg _ hOverlay.y]

private theorem SameSprites.flatMap_drawnBy {c d : Cpu} (h : SameSprites c d) {words : List Word}
    (hDraws : ∀ w ∈ words, w.IsOverlay) :
    words.flatMap c.drawnBy = words.flatMap d.drawnBy := by
  rw [List.flatMap_def, List.flatMap_def,
    List.map_congr_left fun w hMem => h.drawnBy (hDraws w hMem)]

end Cpu

namespace Console

private theorem execute_overlay_result {δ : Type} [Devices δ] {w : Word} (h : w.IsOverlay)
    (c : Console δ) : (c.execute w).result = .ok .draw := by
  rw [h.eq_draw, execute_draw]
  rfl

/-- A draw leaves the sprites of all draws after it as they are. -/
theorem execute_overlay_sprites {δ : Type} [Devices δ] {w : Word} (h : w.IsOverlay)
    (c : Console δ) :
    Cpu.SameSprites (c.execute w).state.machine.cpu c.machine.cpu := by
  rw [h.eq_draw, execute_draw_machine]
  exact ⟨rfl, rfl, fun k hk => Cpu.reg_setReg_ne hk.symm _ _⟩

private theorem execute_overlay_display {w : Word} (h : w.IsOverlay) (c : Console Headless) :
    (c.execute w).state.devices.display =
      c.devices.display.flipAll (c.machine.cpu.drawnBy w) := by
  have hDevices := c.execute_draw_devices w.x w.y w.n
  rw [Headless.toggleAll_eq, ← h.eq_draw] at hDevices
  rw [hDevices]
  rfl

/-- The flag after a draw on the devices in memory: whether it met a lit pixel. -/
theorem execute_overlay_flag {w : Word} (h : w.IsOverlay) (c : Console Headless) :
    (c.execute w).state.machine.cpu.reg Reg.flag =
      if ∃ p ∈ c.machine.cpu.drawnBy w, c.devices.display.pixel p.1 p.2 = true then 1 else 0 := by
  rw [h.eq_draw, execute_draw_machine, Cpu.reg_setReg_self,
    Headless.replies_of_apart (c.machine.cpu.spritePixels_apart w.x w.y w.n)]
  simp only [List.mem_map, ← h.eq_draw]
  rfl

/-- A console after draws, one after the other. -/
def afterDraws (words : List Word) (c : Console Headless) : Console Headless :=
  c.afterAll (words.map .execute)

private theorem afterDraws_cons (w : Word) (words : List Word) (c : Console Headless) :
    c.afterDraws (w :: words) = (c.execute w).state.afterDraws words := rfl

/-- **The bitmap that draws leave** is the old one with all their sprites flipped, as these are at
the start. -/
theorem display_draws {words : List Word} (hDraws : ∀ w ∈ words, w.IsOverlay)
    (c : Console Headless) :
    (c.afterDraws words).devices.display =
      c.devices.display.flipAll (words.flatMap c.machine.cpu.drawnBy) := by
  induction words generalizing c with
  | nil => rfl
  | cons w rest ih =>
      obtain ⟨hFirst, hRest⟩ := List.forall_mem_cons.1 hDraws
      have hSprites := c.execute_overlay_sprites hFirst
      rw [afterDraws_cons, ih hRest, hSprites.flatMap_drawnBy hRest,
        c.execute_overlay_display hFirst, List.flatMap_cons, Framebuffer.flipAll_append]

private theorem result_of_draws {words : List Word} (hDraws : ∀ w ∈ words, w.IsOverlay)
    (c : Console Headless) :
    ∀ o ∈ c.applyAll (words.map .execute), o.result = .ok (.flow .draw) := by
  induction words generalizing c with
  | nil => simp [applyAll]
  | cons w rest ih =>
      obtain ⟨hFirst, hRest⟩ := List.forall_mem_cons.1 hDraws
      refine List.forall_mem_cons.2 ⟨?_, ih hRest _⟩
      show (c.execute w).result.map Answer.flow = _
      rw [c.execute_overlay_result hFirst]
      rfl

private theorem display_draws_perm {words permuted : List Word}
    (hDraws : ∀ w ∈ words, w.IsOverlay) (hPerm : words.Perm permuted)
    (c : Console Headless) :
    (c.afterDraws permuted).devices.display = (c.afterDraws words).devices.display := by
  have hPermuted : ∀ w ∈ permuted, w.IsOverlay :=
    fun w hMem => hDraws w (hPerm.mem_iff.2 hMem)
  rw [display_draws hPermuted, display_draws hDraws]
  exact (Framebuffer.flipAll_perm (hPerm.flatMap_right c.machine.cpu.drawnBy) _).symm

/-- The draws of a word can be left out when there is an even number of them. They might as well
come first, in two equal halves. -/
theorem display_draws_filter {words : List Word} (hDraws : ∀ w ∈ words, w.IsOverlay)
    {word : Word} (hEven : words.count word % 2 = 0) (c : Console Headless) :
    (c.afterDraws (words.filter (· != word))).devices.display =
      (c.afterDraws words).devices.display := by
  obtain ⟨half, hHalf⟩ : ∃ half, words.count word = half + half :=
    ⟨words.count word / 2, by omega⟩
  have hPerm : words.Perm ((List.replicate half word ++ List.replicate half word) ++
      words.filter (· != word)) := by
    rw [List.replicate_append_replicate, ← hHalf, ← List.filter_beq]
    exact (List.filter_append_perm (· == word) words).symm
  have hOthers : ∀ w ∈ words.filter (· != word), w.IsOverlay :=
    fun w hMem => hDraws w (List.mem_filter.1 hMem).1
  have hSprites := hPerm.flatMap_right c.machine.cpu.drawnBy
  rw [display_draws hOthers, display_draws hDraws, Framebuffer.flipAll_perm hSprites,
    List.flatMap_append, List.flatMap_append, Framebuffer.flipAll_append,
    Framebuffer.flipAll_twice]

/-- **The flag of a second draw** of the same sprite says whether the first one lit a pixel. -/
theorem flag_second_draw {w : Word} (h : w.IsOverlay) (c : Console Headless) :
    (c.afterDraws [w, w]).machine.cpu.reg Reg.flag =
      if ∃ p ∈ c.machine.cpu.drawnBy w, c.devices.display.pixel p.1 p.2 = false then 1 else 0 := by
  have hApart : Framebuffer.Apart (c.machine.cpu.drawnBy w) :=
    c.machine.cpu.spritePixels_apart w.x w.y w.n
  have hFlipped : ∀ p ∈ c.machine.cpu.drawnBy w,
      (c.execute w).state.devices.display.pixel p.1 p.2 = !c.devices.display.pixel p.1 p.2 := by
    intro p hp
    rw [c.execute_overlay_display h, Framebuffer.pixel_flipAll_of_apart hApart,
      decide_eq_true ⟨p, hp, rfl⟩, Bool.xor_true]
  have hSame : (∃ p ∈ c.machine.cpu.drawnBy w,
        (c.execute w).state.devices.display.pixel p.1 p.2 = true) ↔
      ∃ p ∈ c.machine.cpu.drawnBy w, c.devices.display.pixel p.1 p.2 = false := by
    constructor
    · rintro ⟨p, hp, hLit⟩
      rw [hFlipped p hp, Bool.not_eq_true'] at hLit
      exact ⟨p, hp, hLit⟩
    · rintro ⟨p, hp, hUnlit⟩
      refine ⟨p, hp, ?_⟩
      rw [hFlipped p hp, hUnlit, Bool.not_false]
  show ((c.execute w).state.execute w).state.machine.cpu.reg Reg.flag = _
  rw [execute_overlay_flag h, (c.execute_overlay_sprites h).drawnBy h]
  simp only [hSame]

end Console

/-- **Drawing is an abelian involution on the display.**  Draws whose coordinates are not in the
flag register all succeed; in any order they leave the same display, and a word that occurs an even
number of times among them can be left out. Drawing the same sprite twice restores the display, and
the second draw raises the flag just if a set pixel of the sprite was not lit before the first. -/
theorem draws_form_abelian_involution (c : Console Headless) :
    (∀ words : List Word, (∀ w ∈ words, w.IsOverlay) →
      (∀ o ∈ c.applyAll (words.map .execute), o.result = .ok (.flow .draw)) ∧
      (∀ permuted, words.Perm permuted →
        (c.afterDraws permuted).devices.display = (c.afterDraws words).devices.display) ∧
      ∀ word, words.count word % 2 = 0 →
        (c.afterDraws (words.filter (· != word))).devices.display =
          (c.afterDraws words).devices.display) ∧
    ∀ x y n : Fin 16, x ≠ 15 → y ≠ 15 →
      let word := Word.ofNibbles 13 x y n
      let cpu := c.machine.cpu
      let twice := c.afterDraws [word, word]
      let someUnlit : Prop := ∃ r < n.val, ∃ b < 8, cpu.spriteBit r b = true ∧
        c.devices.display.pixel ((cpu.reg x).toNat + b) ((cpu.reg y).toNat + r) = false
      twice.devices.display = c.devices.display ∧
      (someUnlit → twice.machine.cpu.reg 15 = 1) ∧
      (¬ someUnlit → twice.machine.cpu.reg 15 = 0) := by
  refine ⟨fun words hDraws => ⟨c.result_of_draws hDraws, fun permuted hPerm => ?_,
    fun word hEven => ?_⟩, fun x y n hx hy => ?_⟩
  · exact c.display_draws_perm hDraws hPerm
  · exact c.display_draws_filter hDraws hEven
  · intro word cpu twice someUnlit
    have hOverlay : word.IsOverlay := Word.isOverlay_ofNibbles hx hy n
    have hBoth : ∀ w ∈ [word, word], w.IsOverlay := by simp [hOverlay]
    have hTwice : [word, word].count word % 2 = 0 := by simp
    have hSprite : cpu.drawnBy word = cpu.spritePixels x y n := by
      rw [Cpu.drawnBy, Word.x_ofNibbles, Word.y_ofNibbles, Word.n_ofNibbles]
    have hUnlit : (∃ p ∈ cpu.drawnBy word, c.devices.display.pixel p.1 p.2 = false) ↔
        someUnlit := by
      rw [hSprite]
      exact Cpu.exists_mem_spritePixels (P := fun u v => c.devices.display.pixel u v = false)
    have hFlag := c.flag_second_draw hOverlay
    refine ⟨?_, fun hSome => ?_, fun hNone => ?_⟩
    · rw [← c.display_draws_filter hBoth hTwice]
      simp only [List.filter_cons, bne_self_eq_false, Bool.false_eq_true, if_false]
      rfl
    · exact hFlag.trans (if_pos (hUnlit.2 hSome))
    · exact hFlag.trans (if_neg (mt hUnlit.1 hNone))

/-- The glyph of zero at two corners that overlap, at the first of them once more: the two draws at
the first corner can be made together, and left out. -/
theorem draws_form_abelian_involution_of_three :
    let c := (⟨Machine.new {} (.cycling [1]), {}⟩ : Console Headless).afterAll
      [.execute 0x603E, .execute 0x611F, .execute 0x6202]
    let words : List Word := [0xD015, 0xD125, 0xD015]
    (∀ w ∈ words, w.IsOverlay) ∧ words.Perm [0xD015, 0xD015, 0xD125] ∧
      words.count 0xD015 % 2 = 0 ∧
      (c.afterDraws [0xD015, 0xD015, 0xD125]).devices.display =
        (c.afterDraws words).devices.display ∧
      (c.afterDraws [0xD125]).devices.display = (c.afterDraws words).devices.display := by
  intro c words
  have hDraws : ∀ w ∈ words, w.IsOverlay := by
    have hFirst : Word.IsOverlay 0xD015 := ⟨rfl, by decide, by decide⟩
    have hSecond : Word.IsOverlay 0xD125 := ⟨rfl, by decide, by decide⟩
    simp [words, hFirst, hSecond]
  have hPerm : words.Perm [0xD015, 0xD015, 0xD125] := .cons _ (.swap _ _ _)
  have hEven : words.count 0xD015 % 2 = 0 := by decide
  obtain ⟨-, hAnyOrder, hLeftOut⟩ := (draws_form_abelian_involution c).1 words hDraws
  exact ⟨hDraws, hPerm, hEven, hAnyOrder _ hPerm, hLeftOut _ hEven⟩

end Chip8
