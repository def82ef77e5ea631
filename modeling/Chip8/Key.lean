import Chip8.Numeral

/-!
# Keys and the keypad

Sixteen keys, named by their hexadecimal digit, and which of them are down.
The keypad shows itself to the outside as a mask with one bit per key.
-/

namespace Chip8

/-- One of the sixteen keys. -/
abbrev Key := Fin 16

/-- A number that names no key. -/
structure InvalidKey where
  code : Nat
  deriving DecidableEq, Repr

/-- The text shown for a number that names no key. -/
def InvalidKey.message (e : InvalidKey) : String :=
  "keycode must be in range 0 <= keycode < 16, got " ++ Numeral.decimal e.code

namespace Key

/-- The key of a number. -/
def ofNat? (code : Nat) : Except InvalidKey Key :=
  if h : code < 16 then .ok ⟨code, h⟩ else .error ⟨code⟩

/-- The name of a key: `k` and its digit in lower case. -/
def text (k : Key) : String :=
  String.ofList ['k', (Numeral.digitChar k.val).toLower]

end Key

/-- Which keys are down. -/
structure Keypad where
  down : Vector Bool 16
  deriving DecidableEq

namespace Keypad

/-- Every key up. -/
def released : Keypad := ⟨Vector.replicate 16 false⟩

/-- Move a key down or up. -/
def set (k : Key) (pressed : Bool) (p : Keypad) : Keypad := ⟨p.down.set k pressed⟩

/-- Whether a key is down. -/
def isPressed (k : Key) (p : Keypad) : Bool := p.down[k]

@[simp] theorem isPressed_released (k : Key) : released.isPressed k = false := by
  simp [isPressed, released]

@[simp] theorem isPressed_set_self (k : Key) (pressed : Bool) (p : Keypad) :
    (p.set k pressed).isPressed k = pressed := by
  simp [isPressed, set]

theorem isPressed_set_ne {k j : Key} (hNe : k ≠ j) (pressed : Bool) (p : Keypad) :
    (p.set k pressed).isPressed j = p.isPressed j := by
  have hVal : k.val ≠ j.val := fun h => hNe (Fin.ext h)
  simp [isPressed, set, hVal]

/-- The keys that are down as a mask, key `k` at bit `k`. -/
def mask (p : Keypad) : Nat :=
  (List.finRange 16).foldl (fun acc k => if p.isPressed k then acc + Nat.pow 2 k.val else acc) 0

/-- The sum of the powers of two whose bits are asked for has just these bits. -/
private theorem testBit_sum_bits {n : Nat} (bit : Fin n → Bool) :
    let sum := (List.finRange n).foldl
      (fun acc k => if bit k then acc + Nat.pow 2 k.val else acc) 0
    sum < Nat.pow 2 n ∧ ∀ k : Fin n, sum.testBit k.val = bit k := by
  induction n with
  | zero => simp
  | succ n ih =>
      obtain ⟨hLt, hBit⟩ := ih fun k => bit k.castSucc
      simp only [List.finRange_succ_last, List.foldl_append, List.foldl_map, List.foldl_cons,
        List.foldl_nil, Fin.val_castSucc, Fin.val_last]
      generalize List.foldl _ 0 (List.finRange n) = sum at hLt hBit ⊢
      have hNext : Nat.pow 2 (n + 1) = Nat.pow 2 n * 2 := rfl
      constructor
      · split <;> omega
      · intro k
        cases k using Fin.lastCases with
        | last =>
            have hTop : sum.testBit n = false := Nat.testBit_lt_two_pow hLt
            cases hLast : bit (Fin.last n) with
            | true => simp [Nat.add_comm sum, Nat.testBit_two_pow_add_eq, hTop]
            | false => simp [hTop]
        | cast k =>
            cases hLast : bit (Fin.last n) with
            | true => simp [Nat.add_comm sum, Nat.testBit_two_pow_add_gt k.isLt, hBit]
            | false => simp [hBit]

theorem mask_lt (p : Keypad) : p.mask < 65536 := (testBit_sum_bits p.isPressed).1

/-- The mask has the bits of the keys that are down. -/
theorem testBit_mask (k : Key) (p : Keypad) : p.mask.testBit k.val = p.isPressed k :=
  (testBit_sum_bits p.isPressed).2 k

/-- Whether any key is down. -/
def any (p : Keypad) : Bool := (List.finRange 16).any p.isPressed

end Keypad

end Chip8
