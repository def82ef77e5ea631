/-!
# Checked operations

Array accesses, machine arithmetic and shifts that stop with a `Crash` where
they make no sense: an index outside its array, a sum that does not fit, a
shift by the whole width. Nothing here clips, wraps or invents a default, so a
computation that is shown to be `.ok` has passed every one of its checks.

Each operation has one lemma that says when it goes through, and the counted
loop has one rule, `forCount_ok`: name the state before each round, and show
that every round goes from one to the next.
-/

namespace Chip8

/-- Why a checked operation stops. -/
inductive Crash where
  /-- An index, or the end of a range, outside its array. -/
  | index
  /-- A sum, difference or product that does not fit. -/
  | overflow
  /-- A shift by at least the width of the word. -/
  | shift
  /-- A copy between ranges of different lengths. -/
  | length
  /-- A case that was held to be impossible. -/
  | unreachable
  deriving DecidableEq, Repr

/-- A computation that may crash. -/
abbrev Checked := Except Crash

namespace Checked

variable {α β σ : Type}

@[simp] theorem ok_bind (a : α) (f : α → Checked β) : (Except.ok a >>= f : Checked β) = f a := rfl

@[simp] theorem pure_eq_ok (a : α) : (pure a : Checked α) = Except.ok a := rfl

/-! ## Arrays -/

/-- The element at an index. -/
def read (a : Array α) (i : Nat) : Checked α :=
  if h : i < a.size then .ok a[i] else .error .index

/-- The array with the element at an index replaced. -/
def write (a : Array α) (i : Nat) (value : α) : Checked (Array α) :=
  if h : i < a.size then .ok (a.set i value) else .error .index

/-- The array with the elements from `start` up to `stop` replaced by those of another. -/
def copyRange (a : Array α) (start stop : Nat) (source : Array α) : Checked (Array α) :=
  if hRange : start ≤ stop ∧ stop ≤ a.size then
    if hLength : source.size = stop - start then
      .ok (Array.ofFn fun i : Fin a.size =>
        if h : start ≤ i.val ∧ i.val < stop then source[i.val - start] else a[i])
    else .error .length
  else .error .index

theorem read_ok {n : Nat} (v : Vector α n) (i : Nat) (h : i < n) :
    read v.toArray i = .ok v[i] := by
  have hSize : i < v.toArray.size := by simpa using h
  rw [read, dif_pos hSize]
  rfl

theorem write_ok {n : Nat} (v : Vector α n) (i : Nat) (h : i < n) (value : α) :
    write v.toArray i value = .ok (v.set i value).toArray := by
  have hSize : i < v.toArray.size := by simpa using h
  rw [write, dif_pos hSize]
  rfl

theorem copyRange_ok {n start stop : Nat} {v w : Vector α n} {source : Array α}
    (hOrder : start ≤ stop) (hFits : stop ≤ n) (hLength : source.size = stop - start)
    (hIn : ∀ i (hi : i < n) (h : start ≤ i ∧ i < stop), source[i - start] = w[i])
    (hOut : ∀ i (hi : i < n), ¬ (start ≤ i ∧ i < stop) → v[i] = w[i]) :
    copyRange v.toArray start stop source = .ok w.toArray := by
  have hRange : start ≤ stop ∧ stop ≤ v.toArray.size := ⟨hOrder, by simpa using hFits⟩
  rw [copyRange, dif_pos hRange, dif_pos hLength]
  congr 1
  apply Array.ext
  · simp
  · intro i hLeft hRight
    have hi : i < n := by simpa using hRight
    rw [Array.getElem_ofFn]
    by_cases h : start ≤ i ∧ i < stop
    · rw [dif_pos h, hIn i hi h]
      rfl
    · rw [dif_neg h]
      exact hOut i hi h

/-! ## Arithmetic -/

/-- Sizes are held in words of at least this many values. -/
def sizeLimit : Nat := 4294967296

/-- The sum of two sizes. -/
def addSize (a b : Nat) : Checked Nat :=
  if a + b < sizeLimit then .ok (a + b) else .error .overflow

/-- The difference of two sizes. -/
def subSize (a b : Nat) : Checked Nat := if b ≤ a then .ok (a - b) else .error .overflow

/-- The product of two sizes. -/
def mulSize (a b : Nat) : Checked Nat :=
  if a * b < sizeLimit then .ok (a * b) else .error .overflow

/-- The sum of two 16-bit words. -/
def add16 (a b : UInt16) : Checked UInt16 :=
  if a.toNat + b.toNat < 65536 then .ok (a + b) else .error .overflow

/-- The product of two 16-bit words. -/
def mul16 (a b : UInt16) : Checked UInt16 :=
  if a.toNat * b.toNat < 65536 then .ok (a * b) else .error .overflow

/-- A byte shifted right. -/
def shiftRight8 (a : UInt8) (amount : Nat) : Checked UInt8 :=
  if amount < 8 then .ok (a >>> UInt8.ofNat amount) else .error .shift

/-- A 16-bit word shifted left. -/
def shiftLeft16 (a : UInt16) (amount : Nat) : Checked UInt16 :=
  if amount < 16 then .ok (a <<< UInt16.ofNat amount) else .error .shift

theorem addSize_ok {a b : Nat} (h : a + b < sizeLimit) : addSize a b = .ok (a + b) :=
  if_pos h

/-- Sizes that are 16-bit words or less are never too large to add. -/
theorem addSize_small {a b : Nat} (ha : a < 65536) (hb : b < 65536) :
    addSize a b = .ok (a + b) := by
  apply addSize_ok
  unfold sizeLimit
  omega

theorem subSize_ok {a b : Nat} (h : b ≤ a) : subSize a b = .ok (a - b) :=
  if_pos h

theorem mulSize_ok {a b : Nat} (h : a * b < sizeLimit) : mulSize a b = .ok (a * b) :=
  if_pos h

theorem add16_ok {a b : UInt16} (h : a.toNat + b.toNat < 65536) : add16 a b = .ok (a + b) :=
  if_pos h

theorem mul16_ok {a b : UInt16} (h : a.toNat * b.toNat < 65536) : mul16 a b = .ok (a * b) :=
  if_pos h

theorem shiftRight8_ok (a : UInt8) {amount : Nat} (h : amount < 8) :
    shiftRight8 a amount = .ok (a >>> UInt8.ofNat amount) :=
  if_pos h

theorem shiftLeft16_ok (a : UInt16) {amount : Nat} (h : amount < 16) :
    shiftLeft16 a amount = .ok (a <<< UInt16.ofNat amount) :=
  if_pos h

/-! ## Counted loops -/

/-- Run a body for `0`, `1`, up to `count - 1`, passing a state along. -/
def forCount (body : Nat → σ → Checked σ) : Nat → σ → Checked σ
  | 0, s => .ok s
  | n + 1, s => forCount body n s >>= body n

/-- **Counted loops**: when every round goes from its named state to the next, the loop
goes from the first to the last. -/
theorem forCount_ok {body : Nat → σ → Checked σ} (state : Nat → σ) {count : Nat}
    (hRound : ∀ i < count, body i (state i) = .ok (state (i + 1))) :
    forCount body count (state 0) = .ok (state count) := by
  induction count with
  | zero => rfl
  | succ n ih =>
      have hBefore : forCount body n (state 0) = .ok (state n) :=
        ih fun i hi => hRound i (by omega)
      rw [forCount, hBefore, ok_bind]
      exact hRound n (by omega)

end Checked

end Chip8
