import Mathlib.Data.Set.Card
import Mathlib.Order.WellFounded

/-!
# Pools of slots

A pool is a set of free slots with a count of the slots in use. A request takes the least free
slot of a window, gives a slot back, or keeps slots from being taken. The pool does not know
who gives: a slot that was never taken can be given as well, and it is counted.

A client takes slots and gives back only what it holds, in any order. Then the free slots are
those the client found, without the ones it holds (`Balanced.step`), and a client that holds
nothing has left the pool as it was.
-/

set_option autoImplicit false

namespace KernelV.Library

universe u

variable {Slot : Type u}

/-- The free slots, and how many are in use. -/
@[ext] structure SlotPool (Slot : Type u) where
  free : Set Slot
  inUse : ℤ

inductive SlotRequest (Slot : Type u) where
  | take
  | give (slot : Slot)
  | keep (slots : Set Slot)

namespace SlotPool

/-- The slot leaves the pool. -/
def taken (pool : SlotPool Slot) (slot : Slot) : SlotPool Slot := ⟨pool.free \ {slot}, pool.inUse + 1⟩

/-- The slot comes back. -/
def given (pool : SlotPool Slot) (slot : Slot) : SlotPool Slot :=
  ⟨insert slot pool.free, pool.inUse - 1⟩

/-- The slots leave the pool, those that were free. -/
noncomputable def kept (pool : SlotPool Slot) (slots : Set Slot) : SlotPool Slot :=
  ⟨pool.free \ slots, pool.inUse + (pool.free ∩ slots).ncard⟩

section Answers

open Classical in
/-- The least free slot of a window. -/
noncomputable def next [LinearOrder Slot] [WellFoundedLT Slot] (window : Set Slot) (pool : SlotPool Slot) :
    Option Slot :=
  if found : (pool.free ∩ window).Nonempty then some (wellFounded_lt.min _ found) else none

variable [LinearOrder Slot] [WellFoundedLT Slot] (window gives : Set Slot)

theorem next_eq_some_iff {pool : SlotPool Slot} {slot : Slot} :
    pool.next window = some slot ↔ IsLeast (pool.free ∩ window) slot := by
  unfold next
  constructor
  · intro found
    split at found
    case isTrue nonempty =>
        obtain rfl := Option.some.inj found
        refine ⟨WellFounded.min_mem _ _ nonempty, fun other member => ?_⟩
        exact not_lt.mp (WellFounded.not_lt_min _ _ member)
    case isFalse => cases found
  · intro least
    have nonempty : (pool.free ∩ window).Nonempty := ⟨slot, least.1⟩
    rw [dif_pos nonempty]
    have below := least.2 (WellFounded.min_mem wellFounded_lt _ nonempty)
    have above : ¬ slot < wellFounded_lt.min _ nonempty := WellFounded.not_lt_min _ _ least.1
    exact congrArg some (le_antisymm (not_lt.mp above) below)

theorem next_eq_none_iff {pool : SlotPool Slot} :
    pool.next window = none ↔ pool.free ∩ window = ∅ := by
  unfold next
  split
  case isTrue nonempty => simp [nonempty.ne_empty]
  case isFalse empty => simp [Set.not_nonempty_iff_eq_empty.mp empty]

open Classical in
/-- The answer to a request, and the pool behind it. Slots are taken from `window`, and those
of `gives` are taken back. -/
noncomputable def answer (pool : SlotPool Slot) : SlotRequest Slot → Option Slot × SlotPool Slot
  | .take =>
      match pool.next window with
      | some slot => (some slot, pool.taken slot)
      | none => (none, pool)
  | .give slot => (none, if slot ∈ gives then pool.given slot else pool)
  | .keep slots => (none, pool.kept slots)

/-- The answers to several requests. -/
noncomputable def answers (pool : SlotPool Slot) :
    List (SlotRequest Slot) → List (Option Slot) × SlotPool Slot
  | [] => ([], pool)
  | request :: requests =>
      let first := pool.answer window gives request
      let rest := first.2.answers requests
      (first.1 :: rest.1, rest.2)

end Answers

end SlotPool

/-! ## Clients -/

/-- A pool, and the slots that a client holds. -/
structure SlotClient (Slot : Type u) where
  pool : SlotPool Slot
  held : List Slot

namespace SlotClient

variable {window : Set Slot} {initial : SlotPool Slot} {c d : SlotClient Slot}

/-- A client takes a slot, or gives back one that it holds. -/
inductive Step [LinearOrder Slot] [WellFoundedLT Slot] (window : Set Slot) :
    SlotClient Slot → SlotClient Slot → Prop
  | take {c : SlotClient Slot} {slot : Slot} (next : c.pool.next window = some slot) :
      Step window c ⟨c.pool.taken slot, slot :: c.held⟩
  | fail {c : SlotClient Slot} (nothing : c.pool.next window = none) : Step window c c
  | give {c : SlotClient Slot} {slot : Slot} (held : slot ∈ c.held) :
      Step window c ⟨c.pool.given slot, c.held.erase slot⟩

/-- Pool and client together have what the pool had at the start. -/
structure Balanced (window : Set Slot) (initial : SlotPool Slot) (c : SlotClient Slot) : Prop where
  free : c.pool.free = initial.free \ {slot | slot ∈ c.held}
  held : ∀ slot ∈ c.held, slot ∈ initial.free ∩ window
  distinct : c.held.Nodup
  inUse : c.pool.inUse = initial.inUse + c.held.length

namespace Balanced

theorem start (window : Set Slot) (initial : SlotPool Slot) : Balanced window initial ⟨initial, []⟩ where
  free := by simp
  held := fun _ member => absurd member List.not_mem_nil
  distinct := List.nodup_nil
  inUse := by simp

/-- **A client that holds nothing has left the pool as it was.** -/
theorem pool_eq (balanced : Balanced window initial c) (nothing : c.held = []) : c.pool = initial := by
  ext slot
  · rw [balanced.free, nothing]
    simp
  · rw [balanced.inUse, nothing]
    simp

theorem give [DecidableEq Slot] (balanced : Balanced window initial c) {slot : Slot}
    (held : slot ∈ c.held) : Balanced window initial ⟨c.pool.given slot, c.held.erase slot⟩ := by
  have distinct := balanced.distinct
  refine ⟨?_, ?_, distinct.erase slot, ?_⟩
  · ext other
    have own := (balanced.held slot held).1
    simp only [SlotPool.given, balanced.free, Set.mem_insert_iff, Set.mem_sdiff, Set.mem_ofPred_eq,
      distinct.mem_erase_iff]
    by_cases same : other = slot
    · simp [same, own]
    · simp [same]
  · exact fun other member => balanced.held other (List.mem_of_mem_erase member)
  · have positive := List.length_pos_of_mem held
    simp only [SlotPool.given, balanced.inUse, List.length_erase_of_mem held]
    omega

variable [LinearOrder Slot] [WellFoundedLT Slot]

theorem take (balanced : Balanced window initial c) {slot : Slot}
    (next : c.pool.next window = some slot) :
    Balanced window initial ⟨c.pool.taken slot, slot :: c.held⟩ := by
  have least := (SlotPool.next_eq_some_iff window).mp next
  have free : slot ∈ initial.free \ {slot | slot ∈ c.held} := balanced.free ▸ least.1.1
  refine ⟨?_, ?_, List.nodup_cons.mpr ⟨free.2, balanced.distinct⟩, ?_⟩
  · ext other
    simp only [SlotPool.taken, balanced.free, Set.mem_sdiff, Set.mem_ofPred_eq, Set.mem_singleton_iff,
      List.mem_cons, not_or]
    tauto
  · intro other member
    rcases List.mem_cons.mp member with rfl | before
    · exact ⟨free.1, least.1.2⟩
    · exact balanced.held other before
  · simp only [SlotPool.taken, balanced.inUse, List.length_cons, Nat.cast_succ, add_assoc]

/-- **Nothing is lost and nothing is made**, in whatever order the slots are taken and given. -/
theorem step (balanced : Balanced window initial c) (step : Step window c d) :
    Balanced window initial d := by
  cases step with
  | take next => exact balanced.take next
  | fail => exact balanced
  | give held => exact balanced.give held

end Balanced

end SlotClient

end KernelV.Library
