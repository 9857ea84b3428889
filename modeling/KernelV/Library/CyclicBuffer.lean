import Mathlib.Data.List.DropRight
import Mathlib.Logic.Function.Basic

/-!
# Cyclic buffers that drop their oldest element

A buffer of `size` cells with the index of the next cell to write and the index of the
oldest element. The indices are equal when the buffer is empty, so it holds `size - 1`
elements at most: a push that makes them meet gives up the oldest.

The contents are read cyclically from the tail up to the head, and cells outside that stretch
hold anything. A push appends to the contents and keeps the last `size - 1` elements
(`contents_push`), and so does any number of pushes (`contents_pushAll`).
-/

set_option autoImplicit false

namespace KernelV.Library

universe u

variable {α : Type u} {size : ℕ}

/-- A remainder of a number below twice the divisor. -/
theorem mod_eq_ite {x : ℕ} (small : x < size + size) :
    x % size = if x < size then x else x - size := by
  split
  case isTrue below => exact Nat.mod_eq_of_lt below
  case isFalse above =>
      rw [Nat.mod_eq_sub_mod (not_lt.mp above), Nat.mod_eq_of_lt (by omega)]

/-- The next index. -/
theorem succ_mod_eq_ite {x : ℕ} (inside : x < size) :
    (x + 1) % size = if x + 1 < size then x + 1 else 0 := by
  rw [mod_eq_ite (by omega)]
  split <;> omega

/-- The cells from `start` on, read cyclically. -/
def readCyclic (size : ℕ) (cells : ℕ → α) (start count : ℕ) : List α :=
  (List.range count).map fun i => cells ((start + i) % size)

theorem readCyclic_succ (cells : ℕ → α) (start count : ℕ) :
    readCyclic size cells start (count + 1) =
      readCyclic size cells start count ++ [cells ((start + count) % size)] := by
  simp [readCyclic, List.range_succ]

theorem tail_readCyclic (cells : ℕ → α) (start count : ℕ) :
    (readCyclic size cells start (count + 1)).tail =
      readCyclic size cells ((start + 1) % size) count := by
  simp only [readCyclic, List.range_succ_eq_map, List.map_cons, List.tail_cons, List.map_map]
  apply List.map_congr_left
  intro i _
  rw [Function.comp_apply, Nat.mod_add_mod, Nat.add_assoc, Nat.add_comm 1]

/-- A write to the cell behind the stretch is not read. -/
theorem readCyclic_update (cells : ℕ → α) {start count : ℕ} (begins : start < size)
    (room : count < size) (a : α) :
    readCyclic size (Function.update cells ((start + count) % size) a) start count =
      readCyclic size cells start count := by
  apply List.map_congr_left
  intro i member
  have earlier := List.mem_range.mp member
  apply Function.update_of_ne
  rw [mod_eq_ite (by omega), mod_eq_ite (by omega)]
  split <;> split <;> omega

/-- A cyclic buffer: its cells, the next one to write and the oldest. -/
structure CyclicBuffer (α : Type u) where
  cells : ℕ → α
  head : ℕ
  tail : ℕ

namespace CyclicBuffer

/-- The element is written, and the oldest one is given up if the indices meet. -/
def push (size : ℕ) (b : CyclicBuffer α) (a : α) : CyclicBuffer α :=
  let head := (b.head + 1) % size
  { cells := Function.update b.cells b.head a
    head
    tail := if head = b.tail then (b.tail + 1) % size else b.tail }

def length (size : ℕ) (b : CyclicBuffer α) : ℕ := (b.head + size - b.tail) % size

/-- The elements from the oldest to the last. -/
def contents (size : ℕ) (b : CyclicBuffer α) : List α :=
  readCyclic size b.cells b.tail (b.length size)

/-- The indices are inside the buffer. -/
structure Bounded (size : ℕ) (b : CyclicBuffer α) : Prop where
  head : b.head < size
  tail : b.tail < size

theorem length_contents (b : CyclicBuffer α) : (b.contents size).length = b.length size := by
  simp [contents, readCyclic]

theorem Bounded.push {b : CyclicBuffer α} (bounded : b.Bounded size) (a : α) :
    (b.push size a).Bounded size := by
  have positive : 0 < size := Nat.zero_lt_of_lt bounded.head
  refine ⟨Nat.mod_lt _ positive, ?_⟩
  unfold CyclicBuffer.push
  dsimp only
  split
  case isTrue => exact Nat.mod_lt _ positive
  case isFalse => exact bounded.tail

theorem Bounded.length_eq {b : CyclicBuffer α} (bounded : b.Bounded size) :
    b.length size = if b.tail ≤ b.head then b.head - b.tail else b.head + size - b.tail := by
  have head := bounded.head
  have tail := bounded.tail
  rw [CyclicBuffer.length, mod_eq_ite (by omega)]
  split <;> split <;> omega

theorem Bounded.length_lt {b : CyclicBuffer α} (bounded : b.Bounded size) : b.length size < size :=
  Nat.mod_lt _ (Nat.zero_lt_of_lt bounded.head)

/-- The head is the cell behind the contents. -/
theorem Bounded.head_eq {b : CyclicBuffer α} (bounded : b.Bounded size) :
    (b.tail + b.length size) % size = b.head := by
  have head := bounded.head
  have tail := bounded.tail
  have room := bounded.length_lt
  have length := bounded.length_eq
  rw [mod_eq_ite (by omega)]
  split at length <;> split <;> omega

/-- The indices meet after a push to a full buffer, and only then. -/
theorem Bounded.meets_iff {b : CyclicBuffer α} (bounded : b.Bounded size) :
    (b.head + 1) % size = b.tail ↔ b.length size + 1 = size := by
  have head := bounded.head
  have tail := bounded.tail
  rw [bounded.length_eq, succ_mod_eq_ite head]
  split <;> split <;> omega

/-- A push adds an element unless the buffer is full. -/
theorem Bounded.length_push {b : CyclicBuffer α} (bounded : b.Bounded size) (a : α) :
    (b.push size a).length size =
      if b.length size + 1 = size then b.length size else b.length size + 1 := by
  have head := bounded.head
  have tail := bounded.tail
  have next := succ_mod_eq_ite head
  have oldest := succ_mod_eq_ite tail
  rw [(bounded.push a).length_eq, bounded.length_eq]
  simp only [CyclicBuffer.push, next, oldest]
  split_ifs <;> omega

/-- **A push appends, and keeps the last `size - 1` elements.** -/
theorem contents_push {b : CyclicBuffer α} (bounded : b.Bounded size) (a : α) :
    (b.push size a).contents size = (b.contents size ++ [a]).rtake (size - 1) := by
  have written : readCyclic size (Function.update b.cells b.head a) b.tail (b.length size + 1) =
      b.contents size ++ [a] := by
    rw [readCyclic_succ, bounded.head_eq, Function.update_self, ← bounded.head_eq,
      readCyclic_update b.cells bounded.tail bounded.length_lt, contents]
  have count : (b.contents size ++ [a]).length = b.length size + 1 := by
    rw [List.length_append, length_contents, List.length_singleton]
  have length := bounded.length_push a
  have room := bounded.length_lt
  rw [List.rtake, count, contents, length, CyclicBuffer.push]
  by_cases full : b.length size + 1 = size
  · have excess : b.length size + 1 - (size - 1) = 1 := by omega
    simp only [if_pos full, if_pos (bounded.meets_iff.mpr full)]
    rw [← tail_readCyclic, written, excess, List.drop_one]
  · have excess : b.length size + 1 - (size - 1) = 0 := by omega
    simp only [if_neg full, if_neg (mt bounded.meets_iff.mp full)]
    rw [written, excess, List.drop_zero]

/-- Any number of pushes. -/
def pushAll (size : ℕ) (b : CyclicBuffer α) (as : List α) : CyclicBuffer α :=
  as.foldl (push size) b

theorem pushAll_append (b : CyclicBuffer α) (as bs : List α) :
    b.pushAll size (as ++ bs) = (b.pushAll size as).pushAll size bs :=
  List.foldl_append

theorem Bounded.pushAll {b : CyclicBuffer α} (bounded : b.Bounded size) (as : List α) :
    (b.pushAll size as).Bounded size :=
  List.foldlRecOn as _ bounded fun _ bounded a _ => bounded.push a

/-- The last elements, taken twice. -/
theorem rtake_append_rtake (as bs : List α) (n : ℕ) :
    (as.rtake n ++ bs).rtake n = (as ++ bs).rtake n := by
  simp [List.rtake_eq_reverse_take_reverse, List.take_append, List.take_take]

/-- **Any number of pushes keeps the last `size - 1` elements.** -/
theorem contents_pushAll {b : CyclicBuffer α} (bounded : b.Bounded size) (as : List α) :
    (b.pushAll size as).contents size = (b.contents size ++ as).rtake (size - 1) := by
  induction as generalizing b with
  | nil =>
      have room := bounded.length_lt
      rw [List.append_nil, List.rtake, length_contents, Nat.sub_eq_zero_of_le (by omega), List.drop_zero]
      rfl
  | cons a as ih =>
      have rest := ih (bounded.push a)
      rw [contents_push bounded, rtake_append_rtake, List.append_assoc, List.singleton_append] at rest
      exact rest

end CyclicBuffer

end KernelV.Library
