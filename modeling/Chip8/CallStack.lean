import Chip8.Fault

/-!
# The call stack

Sixteen slots for return addresses and the number of them in use. Only the
slots below `depth` count: `toList` shows them, newest first, and each
operation is described by what it does to that list. What a pop leaves behind
in its slot is never seen again.

Main results: `toList_of_push`, `push_of_full`, `pop_eq`, `pop_of_empty`.
-/

namespace Chip8

/-- How many return addresses fit. -/
def stackSize : Nat := 16

/-- Return addresses of the subroutines that are running. -/
structure CallStack where
  slots : Vector UInt16 stackSize
  depth : Nat
  depth_le : depth ≤ stackSize
  deriving DecidableEq

namespace CallStack

/-- The stack that holds nothing. -/
def empty : CallStack := ⟨Vector.replicate stackSize 0, 0, Nat.zero_le _⟩

/-- Whether no address is held. -/
def isEmpty (s : CallStack) : Bool := s.depth == 0

/-- Whether no further address fits. -/
def isFull (s : CallStack) : Bool := s.depth == stackSize

/-- Put an address on top; a full stack takes none. -/
def push (address : UInt16) (s : CallStack) : Except Fault CallStack :=
  if h : s.depth < stackSize then
    .ok ⟨s.slots.set s.depth address, s.depth + 1, h⟩
  else .error .stackOverflow

/-- Take the newest address off; an empty stack has none. -/
def pop (s : CallStack) : Except Fault (UInt16 × CallStack) :=
  if h : 0 < s.depth then
    have hIndex : s.depth - 1 < stackSize := by have := s.depth_le; omega
    .ok (s.slots[s.depth - 1], ⟨s.slots, s.depth - 1, Nat.le_of_lt hIndex⟩)
  else .error .stackUnderflow

/-- Take every address off, and wipe the slots. -/
def clear (s : CallStack) : CallStack :=
  { s with slots := Vector.replicate stackSize 0, depth := 0, depth_le := Nat.zero_le _ }

/-- The addresses held, newest first. -/
def toList (s : CallStack) : List UInt16 := (s.slots.toList.take s.depth).reverse

@[simp] theorem toList_empty : empty.toList = [] := rfl

/-- A stack that was cleared is like a new one, also in the slots that are not in use. -/
theorem clear_eq_empty (s : CallStack) : s.clear = empty := rfl

@[simp] theorem length_toList (s : CallStack) : s.toList.length = s.depth := by
  have hDepth := s.depth_le
  simp [toList, Nat.min_eq_left hDepth]

theorem isEmpty_iff (s : CallStack) : s.isEmpty = true ↔ s.toList = [] := by
  rw [← List.length_eq_zero_iff, length_toList]
  simp [isEmpty]

theorem isFull_iff (s : CallStack) : s.isFull = true ↔ s.toList.length = stackSize := by
  rw [length_toList]
  simp [isFull]

/-- A push that is taken puts its address in front of those held. -/
theorem toList_of_push {s t : CallStack} {address : UInt16}
    (hPush : s.push address = .ok t) : t.toList = address :: s.toList := by
  unfold push at hPush
  split at hPush
  · rename_i hDepth
    cases hPush
    have hLength : s.depth < s.slots.toList.length := by simpa using hDepth
    simp only [toList, Vector.toList_set]
    rw [List.take_add_one, List.getElem?_set_self hLength,
      List.take_set_of_le (Nat.le_refl _)]
    simp
  · cases hPush

/-- A push is refused just when sixteen addresses are held. -/
theorem push_of_full {s : CallStack} (hFull : s.toList.length = stackSize) (address : UInt16) :
    s.push address = .error .stackOverflow := by
  rw [length_toList] at hFull
  simp [push, hFull]

theorem push_of_not_full {s : CallStack} (hRoom : s.toList.length < stackSize)
    (address : UInt16) : ∃ t, s.push address = .ok t ∧ t.toList = address :: s.toList := by
  rw [length_toList] at hRoom
  have hPush : s.push address = .ok ⟨s.slots.set s.depth address, s.depth + 1, hRoom⟩ := by
    simp [push, hRoom]
  exact ⟨_, hPush, toList_of_push hPush⟩

/-- A pop gives the newest address held and leaves the older ones. -/
theorem pop_eq {s : CallStack} {address : UInt16} {older : List UInt16}
    (hHeld : s.toList = address :: older) :
    ∃ t, s.pop = .ok (address, t) ∧ t.toList = older := by
  have hLength : s.depth = older.length + 1 := by
    rw [← length_toList, hHeld, List.length_cons]
  have hDepth := s.depth_le
  have hIndex : s.depth - 1 < s.slots.toList.length := by simp; omega
  have hTake : s.slots.toList.take s.depth =
      s.slots.toList.take (s.depth - 1) ++ [s.slots.toList[s.depth - 1]] := by
    rw [List.take_append_getElem hIndex]
    congr 1
    omega
  rw [toList, hTake, List.reverse_append, List.reverse_singleton, List.singleton_append,
    List.cons.injEq] at hHeld
  refine ⟨⟨s.slots, s.depth - 1, by omega⟩, ?_, hHeld.2⟩
  have hSlot : s.depth - 1 < stackSize := by omega
  have hTop : s.slots[s.depth - 1] = address := by
    rw [← hHeld.1, Vector.getElem_toList]
  simp [pop, show 0 < s.depth by omega, hTop]

theorem pop_of_empty {s : CallStack} (hNone : s.toList = []) :
    s.pop = .error .stackUnderflow := by
  have hLength : s.depth = 0 := by rw [← length_toList, hNone, List.length_nil]
  simp [pop, hLength]

/-- A pop that is answered takes the newest address off. -/
theorem toList_of_pop {s t : CallStack} {address : UInt16} (hPop : s.pop = .ok (address, t)) :
    s.toList = address :: t.toList := by
  cases hHeld : s.toList with
  | nil =>
      rw [pop_of_empty hHeld] at hPop
      cases hPop
  | cons first older =>
      obtain ⟨rest, hRest, hOlder⟩ := pop_eq hHeld
      rw [hRest] at hPop
      cases hPop
      rw [hOlder]

end CallStack

end Chip8
