import Chip8.CallStack
import Mathlib.Data.List.Induction

/-!
# The call stack is a bounded list

A stack of return addresses is used through three actions, and says of itself
how many addresses it holds and whether it is empty or full (`StackApi`). The
call stack does this with sixteen slots and a depth; a list that takes no more
than sixteen entries does it too. `CallStack.toList` leads from one to the other
and forgets the slots above the depth, so nothing that is seen of a call stack can
depend on what a pop or an earlier use left in them.

An action adds an entry in front, takes the front one off, drops all or does nothing
(`BoundedList.Acted`). So it is known which push the entry in front comes from:
the last one that was not undone, that is, the one since which the list has always
been longer than before it.

## Main results

* `StackApi.Represents.seen` — stacks that act alike look alike, whatever is done to them.
* `CallStack.represents` — the call stack acts as the list of its addresses.
* `BoundedList.isNewest_iff` — which push the newest entry comes from.
* `call_stack_is_bounded_list` — every use of a new call stack.
-/

namespace Chip8

/-! ## Stacks of addresses -/

/-- What can be done to a stack of addresses. -/
inductive StackAction where
  | push (address : UInt16)
  | pop
  | clear
  deriving DecidableEq, Repr

/-- A stack of addresses, as its user knows it. An action has an answer, which is an address when
something was popped. -/
structure StackApi (σ : Type) where
  act : StackAction → σ → Except Fault (Option UInt16) × σ
  length : σ → Nat
  isEmpty : σ → Bool
  isFull : σ → Bool

/-- What is seen of a stack after an action. -/
structure StackSight where
  answer : Except Fault (Option UInt16)
  length : Nat
  isEmpty : Bool
  isFull : Bool

namespace StackApi

variable {σ τ : Type}

/-- The state after actions, one after the other, also after those that fail. -/
def after (api : StackApi σ) (actions : List StackAction) (s : σ) : σ :=
  actions.foldl (fun s action => (api.act action s).2) s

/-- What is seen after each of the actions. -/
def seen (api : StackApi σ) : List StackAction → σ → List StackSight
  | [], _ => []
  | action :: rest, s =>
      let done := api.act action s
      ⟨done.1, api.length done.2, api.isEmpty done.2, api.isFull done.2⟩ :: api.seen rest done.2

theorem after_append (api : StackApi σ) (actions more : List StackAction) (s : σ) :
    api.after (actions ++ more) s = api.after more (api.after actions s) :=
  List.foldl_append

/-- The newest push that was not undone was of this address: ever since it the stack has been longer
than before it, and now it is just one longer. -/
def IsNewest (api : StackApi σ) (start : σ) (actions : List StackAction)
    (address : UInt16) : Prop :=
  ∃ before since, actions = before ++ .push address :: since ∧
    (∀ first, first <+: since → api.length (api.after before start) <
      api.length (api.after (before ++ .push address :: first) start)) ∧
    api.length (api.after actions start) = api.length (api.after before start) + 1

/-- **One stack represents another**, by a view of its states: the same actions have the same
answers, and lead to states that belong together and say the same of themselves. -/
structure Represents (concrete : StackApi σ) (abstract : StackApi τ) (view : σ → τ) : Prop where
  answer : ∀ action s, (concrete.act action s).1 = (abstract.act action (view s)).1
  next : ∀ action s, view (concrete.act action s).2 = (abstract.act action (view s)).2
  length : ∀ s, concrete.length s = abstract.length (view s)
  isEmpty : ∀ s, concrete.isEmpty s = abstract.isEmpty (view s)
  isFull : ∀ s, concrete.isFull s = abstract.isFull (view s)

namespace Represents

variable {concrete : StackApi σ} {abstract : StackApi τ} {view : σ → τ}

theorem after (h : Represents concrete abstract view) (actions : List StackAction) (s : σ) :
    view (concrete.after actions s) = abstract.after actions (view s) := by
  induction actions generalizing s with
  | nil => rfl
  | cons action rest ih =>
      show view (concrete.after rest (concrete.act action s).2) =
        abstract.after rest (abstract.act action (view s)).2
      rw [ih, h.next]

/-- **What is seen is the same**, whatever is done. -/
theorem seen (h : Represents concrete abstract view) (actions : List StackAction) (s : σ) :
    concrete.seen actions s = abstract.seen actions (view s) := by
  induction actions generalizing s with
  | nil => rfl
  | cons action rest ih =>
      rw [StackApi.seen, StackApi.seen, ih, h.answer, h.length, h.isEmpty, h.isFull, h.next]

theorem isNewest_iff (h : Represents concrete abstract view) {start : σ}
    {actions : List StackAction} {address : UInt16} :
    concrete.IsNewest start actions address ↔
      abstract.IsNewest (view start) actions address := by
  simp only [IsNewest, h.length, h.after]

end Represents

end StackApi

/-! ## Lists of at most sixteen entries -/

namespace BoundedList

/-- Act on a list of addresses, the newest in front. -/
def act : StackAction → List UInt16 → Except Fault (Option UInt16) × List UInt16
  | .push address, held =>
      if held.length < stackSize then (.ok none, address :: held) else (.error .stackOverflow, held)
  | .pop, [] => (.error .stackUnderflow, [])
  | .pop, newest :: older => (.ok (some newest), older)
  | .clear, _ => (.ok none, [])

/-- A list as a stack. -/
def api : StackApi (List UInt16) where
  act := act
  length := List.length
  isEmpty := List.isEmpty
  isFull held := held.length == stackSize

/-- The list after actions on an empty one. -/
def heldAfter (actions : List StackAction) : List UInt16 := api.after actions []

private theorem heldAfter_concat (actions : List StackAction) (action : StackAction) :
    heldAfter (actions ++ [action]) = (act action (heldAfter actions)).2 :=
  api.after_append actions [action] []

private theorem heldAfter_push (before since : List StackAction) (address : UInt16) :
    heldAfter (before ++ .push address :: since) =
      api.after since (act (.push address) (heldAfter before)).2 :=
  api.after_append before (.push address :: since) []

/-- What an action can do to a list. -/
inductive Acted (held : List UInt16) : StackAction → List UInt16 → Prop
  | refused (action : StackAction) : Acted held action held
  | pushed (address : UInt16) (hRoom : held.length < stackSize) :
    Acted held (.push address) (address :: held)
  | popped {newest : UInt16} {older : List UInt16} (hHeld : held = newest :: older) :
    Acted held .pop older
  | cleared : Acted held .clear []

private theorem acted (action : StackAction) (held : List UInt16) :
    Acted held action (act action held).2 := by
  cases action with
  | push address =>
      by_cases hRoom : held.length < stackSize
      · rw [act, if_pos hRoom]
        exact .pushed address hRoom
      · rw [act, if_neg hRoom]
        exact .refused _
  | pop =>
      cases held with
      | nil => exact .refused _
      | cons newest older => exact .popped rfl
  | clear => exact .cleared

namespace Acted

variable {action : StackAction} {held next : List UInt16}

theorem length_le (hActed : Acted held action next) (h : held.length ≤ stackSize) :
    next.length ≤ stackSize := by
  cases hActed with
  | refused => exact h
  | pushed _ hRoom => exact hRoom
  | popped hHeld =>
      rw [hHeld] at h
      exact Nat.le_of_succ_le h
  | cleared => exact Nat.zero_le _

/-- An entry was just pushed, or was there before. -/
theorem pushed_or_held (hActed : Acted held action next) {newer older : List UInt16}
    {address : UInt16} (h : next = newer ++ address :: older) :
    (action = .push address ∧ held = older) ∨ ∃ above, held = above ++ address :: older := by
  cases hActed with
  | refused => exact Or.inr ⟨newer, h⟩
  | pushed pushed =>
      cases newer with
      | nil =>
          obtain ⟨rfl, rfl⟩ := List.cons.inj h
          exact Or.inl ⟨rfl, rfl⟩
      | cons _ above => exact Or.inr ⟨above, (List.cons.inj h).2⟩
  | @popped newest _ hHeld => exact Or.inr ⟨newest :: newer, hHeld.trans (congrArg _ h)⟩
  | cleared => simp at h

/-- The bottom of a list is left alone, if the list is not shorter than it afterwards. -/
theorem suffix (hActed : Acted held action next) {bottom : List UInt16} (h : bottom <:+ held)
    (hLength : bottom.length ≤ next.length) : bottom <:+ next := by
  cases hActed with
  | refused => exact h
  | pushed address => exact h.trans (List.suffix_cons address held)
  | popped hHeld =>
      rcases List.suffix_cons_iff.1 (hHeld ▸ h) with hAll | hBelow
      · rw [hAll, List.length_cons] at hLength
        omega
      · exact hBelow
  | cleared =>
      have hNone : bottom = [] := List.length_eq_zero_iff.1 (Nat.le_zero.1 hLength)
      exact hNone ▸ List.nil_suffix

/-- A push that made a list longer put its address in front. -/
theorem eq_cons_of_longer {address : UInt16} (hActed : Acted held (.push address) next)
    (h : held.length < next.length) : next = address :: held := by
  cases hActed with
  | refused => exact absurd h (Nat.lt_irrefl _)
  | pushed => rfl

end Acted

private theorem length_heldAfter_le (actions : List StackAction) :
    (heldAfter actions).length ≤ stackSize := by
  induction actions using List.reverseRecOn with
  | nil => exact Nat.zero_le _
  | append_singleton actions action ih =>
      rw [heldAfter_concat]
      exact (acted action _).length_le ih

/-! ### Where entries come from -/

/-- Every entry comes from a push since which the list has been longer than before it. -/
theorem exists_push {actions : List StackAction} {newer older : List UInt16} {address : UInt16}
    (h : heldAfter actions = newer ++ address :: older) :
    ∃ before since, actions = before ++ .push address :: since ∧ heldAfter before = older ∧
      ∀ first, first <+: since →
        older.length < (heldAfter (before ++ .push address :: first)).length := by
  induction actions using List.reverseRecOn generalizing newer with
  | nil => simp [heldAfter, StackApi.after] at h
  | append_singleton actions action ih =>
      have hLonger : older.length < (heldAfter (actions ++ [action])).length := by
        rw [h, List.length_append, List.length_cons]
        omega
      rw [heldAfter_concat] at h
      rcases (acted action _).pushed_or_held h with ⟨rfl, hBefore⟩ | ⟨above, hHeld⟩
      · refine ⟨actions, [], rfl, hBefore, fun first hFirst => ?_⟩
        rw [List.prefix_nil.1 hFirst]
        exact hLonger
      · obtain ⟨before, since, rfl, hBefore, hSince⟩ := ih hHeld
        refine ⟨before, since ++ [action], by simp, hBefore, fun first hFirst => ?_⟩
        rcases List.prefix_concat_iff.1 hFirst with rfl | hEarlier
        · simpa using hLonger
        · exact hSince first hEarlier

/-- **The bottom of a list stays** while the list is nowhere shorter than it. -/
theorem kept {bottom held : List UInt16} (h : bottom <:+ held) {actions : List StackAction}
    (hLength : ∀ first, first <+: actions → bottom.length ≤ (api.after first held).length) :
    bottom <:+ api.after actions held := by
  induction actions generalizing held with
  | nil => exact h
  | cons action rest ih =>
      refine ih ((acted action held).suffix h (hLength [action] ?_)) fun first hFirst => ?_
      · exact List.prefix_append [action] rest
      · exact hLength (action :: first) (List.cons_prefix_cons.2 ⟨rfl, hFirst⟩)

/-- **The entry in front comes from the newest push that was not undone.** -/
theorem isNewest_iff {actions : List StackAction} {address : UInt16} :
    api.IsNewest [] actions address ↔ ∃ older, heldAfter actions = address :: older := by
  constructor
  · rintro ⟨before, since, rfl, hSince, hNow⟩
    change ∀ first, first <+: since → (heldAfter before).length <
      (heldAfter (before ++ .push address :: first)).length at hSince
    change (heldAfter (before ++ .push address :: since)).length =
      (heldAfter before).length + 1 at hNow
    have hFirst := hSince [] List.nil_prefix
    simp only [heldAfter_push] at hFirst hSince hNow ⊢
    rw [(acted _ _).eq_cons_of_longer hFirst] at hSince hNow ⊢
    have hKept := kept (List.suffix_refl (address :: heldAfter before)) hSince
    exact ⟨heldAfter before, (hKept.eq_of_length hNow.symm).symm⟩
  · rintro ⟨older, hHeld⟩
    obtain ⟨before, since, hActions, rfl, hSince⟩ := @exists_push actions [] older address hHeld
    exact ⟨before, since, hActions, hSince, congrArg List.length hHeld⟩

end BoundedList

/-! ## Call stacks -/

namespace CallStack

/-- Act on a call stack, and leave it as it is when that fails. -/
def act : StackAction → CallStack → Except Fault (Option UInt16) × CallStack
  | .push address, s =>
      match s.push address with
      | .ok t => (.ok none, t)
      | .error fault => (.error fault, s)
  | .pop, s =>
      match s.pop with
      | .ok (address, t) => (.ok (some address), t)
      | .error fault => (.error fault, s)
  | .clear, s => (.ok none, s.clear)

/-- A call stack as a stack. -/
def api : StackApi CallStack where
  act := act
  length := depth
  isEmpty := isEmpty
  isFull := isFull

/-- An action does to the addresses held what it does to a list of them. -/
theorem act_toList (action : StackAction) (s : CallStack) :
    (act action s).1 = (BoundedList.act action s.toList).1 ∧
      (act action s).2.toList = (BoundedList.act action s.toList).2 := by
  cases action with
  | push address =>
      by_cases hRoom : s.toList.length < stackSize
      · obtain ⟨t, hPush, hHeld⟩ := push_of_not_full hRoom address
        rw [act, hPush, BoundedList.act, if_pos hRoom]
        exact ⟨rfl, hHeld⟩
      · have hFull : s.toList.length = stackSize := by
          have hDepth := s.depth_le
          rw [length_toList] at hRoom ⊢
          omega
        rw [act, push_of_full hFull, BoundedList.act, if_neg hRoom]
        exact ⟨rfl, rfl⟩
  | pop =>
      cases hHeld : s.toList with
      | nil =>
          rw [act, pop_of_empty hHeld]
          exact ⟨rfl, hHeld⟩
      | cons newest older =>
          obtain ⟨t, hPop, hOlder⟩ := pop_eq hHeld
          rw [act, hPop]
          exact ⟨rfl, hOlder⟩
  | clear =>
      rw [act, clear_eq_empty]
      exact ⟨rfl, toList_empty⟩

/-- **The call stack represents the list of its addresses.** -/
theorem represents : StackApi.Represents api BoundedList.api toList where
  answer action s := (act_toList action s).1
  next action s := (act_toList action s).2
  length s := s.length_toList.symm
  isEmpty s := by
    rw [Bool.eq_iff_iff, show api.isEmpty s = s.isEmpty from rfl, s.isEmpty_iff]
    exact List.isEmpty_iff.symm
  isFull s := by
    rw [Bool.eq_iff_iff, show api.isFull s = s.isFull from rfl, s.isFull_iff]
    exact beq_iff_eq.symm

/-- Stacks with the same slots in use hold the same addresses. -/
theorem toList_congr {s t : CallStack} (hDepth : t.depth = s.depth)
    (hSlots : ∀ i < s.depth, t.slots[i]? = s.slots[i]?) : t.toList = s.toList := by
  rw [toList, toList, hDepth]
  congr 1
  apply List.ext_getElem?
  intro i
  by_cases hUsed : i < s.depth
  · rw [List.getElem?_take_of_lt hUsed, List.getElem?_take_of_lt hUsed]
    simpa using hSlots i hUsed
  · rw [List.getElem?_take_eq_none (by omega), List.getElem?_take_eq_none (by omega)]

theorem push_eq_error_iff {s : CallStack} {address : UInt16} {fault : Fault} :
    s.push address = .error fault ↔ fault = .stackOverflow ∧ s.toList.length = stackSize := by
  have hDepth := s.depth_le
  rw [length_toList, push]
  split
  · simp
    omega
  · simp [eq_comm]
    omega

theorem pop_eq_error_iff {s : CallStack} {fault : Fault} :
    s.pop = .error fault ↔ fault = .stackUnderflow ∧ s.toList = [] := by
  cases hHeld : s.toList with
  | nil => simp [pop_of_empty hHeld, eq_comm]
  | cons newest older =>
      obtain ⟨t, hPop, -⟩ := pop_eq hHeld
      simp [hPop]

theorem exists_pop_iff {s : CallStack} {address : UInt16} :
    (∃ t, s.pop = .ok (address, t)) ↔ ∃ older, s.toList = address :: older := by
  constructor
  · rintro ⟨t, hPop⟩
    exact ⟨t.toList, toList_of_pop hPop⟩
  · rintro ⟨older, hHeld⟩
    obtain ⟨t, hPop, -⟩ := pop_eq hHeld
    exact ⟨t, hPop⟩

private theorem act_of_error {action : StackAction} {s : CallStack} {fault : Fault}
    (h : (act action s).1 = .error fault) : (act action s).2 = s := by
  cases action with
  | push address =>
      rw [act] at h ⊢
      split at h <;> trivial
  | pop =>
      rw [act] at h ⊢
      split at h <;> trivial
  | clear => cases h

end CallStack

/-- **The call stack is a bounded list.**  Whatever is pushed, popped and cleared on a new call
stack, its answers and what it says of itself are those of a list that takes sixteen addresses. It
holds the addresses of that list. A push fails just when there are sixteen of them and a pop just
when there are none, each with its fault, and what fails leaves the stack as it was. A pop gives an
address just when the newest push that was not undone was of it. What is in the slots above those in
use shows in nothing that is done later. -/
theorem call_stack_is_bounded_list (actions : List StackAction) :
    let s := CallStack.api.after actions .empty
    let held := BoundedList.api.after actions []
    CallStack.api.seen actions .empty = BoundedList.api.seen actions [] ∧
    s.toList = held ∧ s.depth = held.length ∧ held.length ≤ 16 ∧
    (s.isEmpty = true ↔ held = []) ∧ (s.isFull = true ↔ held.length = 16) ∧
    (∀ address fault, s.push address = .error fault ↔
      fault = .stackOverflow ∧ held.length = 16) ∧
    (∀ fault, s.pop = .error fault ↔ fault = .stackUnderflow ∧ held = []) ∧
    (∀ action fault, (CallStack.act action s).1 = .error fault →
      (CallStack.act action s).2 = s) ∧
    (∀ address, (∃ t, s.pop = .ok (address, t)) ↔
      CallStack.api.IsNewest .empty actions address) ∧
    ∀ t : CallStack, t.depth = s.depth → (∀ i < s.depth, t.slots[i]? = s.slots[i]?) →
      ∀ later, CallStack.api.seen later t = CallStack.api.seen later s := by
  intro s held
  have hHeld : s.toList = held := CallStack.represents.after actions .empty
  refine ⟨CallStack.represents.seen actions .empty, hHeld, ?_,
    BoundedList.length_heldAfter_le actions, ?_, ?_, ?_, ?_, ?_, ?_, ?_⟩
  · rw [← hHeld, CallStack.length_toList]
  · rw [← hHeld]
    exact s.isEmpty_iff
  · rw [← hHeld]
    exact s.isFull_iff
  · intro address fault
    rw [← hHeld]
    exact CallStack.push_eq_error_iff
  · intro fault
    rw [← hHeld]
    exact CallStack.pop_eq_error_iff
  · intro action fault h
    exact CallStack.act_of_error h
  · intro address
    rw [CallStack.exists_pop_iff, hHeld, CallStack.represents.isNewest_iff]
    exact BoundedList.isNewest_iff.symm
  · intro t hDepth hSlots later
    rw [CallStack.represents.seen, CallStack.represents.seen, CallStack.toList_congr hDepth hSlots]

/-- A stack with one address in use and another one left behind by a pop, and the same stack with
that one wiped. -/
theorem call_stack_is_bounded_list_over_stale_slot :
    let s := CallStack.api.after [.push 0x202, .push 0x404, .pop] .empty
    let t : CallStack := { s with slots := s.slots.set 1 0 }
    let uses : List StackAction := [.pop, .pop, .push 0x606, .pop]
    s.slots[1]? = some 0x404 ∧ t.slots[1]? = some 0 ∧ t.depth = s.depth ∧
    (∀ i < s.depth, t.slots[i]? = s.slots[i]?) ∧
    CallStack.api.seen uses t = CallStack.api.seen uses s ∧
    (CallStack.api.seen uses s).map StackSight.answer =
      [.ok (some 0x202), .error .stackUnderflow, .ok none, .ok (some 0x606)] := by
  intro s t uses
  have hSlots : ∀ i < s.depth, t.slots[i]? = s.slots[i]? := by
    intro i hi
    obtain rfl : i = 0 := Nat.lt_one_iff.1 hi
    rfl
  obtain ⟨-, -, -, -, -, -, -, -, -, -, hStale⟩ :=
    call_stack_is_bounded_list [.push 0x202, .push 0x404, .pop]
  exact ⟨rfl, rfl, rfl, hSlots, hStale t rfl hSlots uses, rfl⟩

end Chip8
