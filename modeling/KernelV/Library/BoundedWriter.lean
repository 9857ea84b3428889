import Mathlib.Data.List.Basic
import Mathlib.Logic.Function.Basic

/-!
# Writers that stop at a limit

A writer fills a memory from its start. The loops that use it test the limit before every
store, so each of them writes the first elements of what it is given, as many as there is
room for (`writeAll_eq`, `writeRepeat_eq`). Two such loops one after the other write the
first elements of both together (`writeAll_append`).

Stores without a test go to the cells from the next one on, each of them once
(`stores_putAll`), and leave every other cell alone (`cells_putAll_of_le`).
-/

set_option autoImplicit false

namespace KernelV.Library

universe u

variable {α : Type u}

/-- A memory with the next cell to write, and the cells stored to so far. -/
structure Writer (α : Type u) where
  cells : ℕ → α
  next : ℕ
  stores : List ℕ

namespace Writer

/-- `*p++ = a`. -/
def put (a : α) (w : Writer α) : Writer α :=
  { cells := Function.update w.cells w.next a, next := w.next + 1, stores := w.stores ++ [w.next] }

/-- `*p = a`. -/
def set (a : α) (w : Writer α) : Writer α :=
  { w with cells := Function.update w.cells w.next a, stores := w.stores ++ [w.next] }

/-- `if (p < end) *p++ = a`. -/
def write (limit : ℕ) (a : α) (w : Writer α) : Writer α := if w.next < limit then w.put a else w

/-- `while (*str && p < end) *p++ = *str++`. -/
def writeAll (limit : ℕ) : List α → Writer α → Writer α
  | [], w => w
  | a :: as, w => if w.next < limit then writeAll limit as (w.put a) else w

/-- `while (count-- > 0 && p < end) *p++ = a`. -/
def writeRepeat (limit : ℕ) (a : α) : ℕ → Writer α → Writer α
  | 0, w => w
  | count + 1, w => if w.next < limit then writeRepeat limit a count (w.put a) else w

/-- Stores without a test. -/
def putAll (as : List α) (w : Writer α) : Writer α := as.foldl (fun w a => w.put a) w

/-- What lies before the next cell. -/
def contents (w : Writer α) : List α := (List.range w.next).map w.cells

@[simp] theorem next_put (a : α) (w : Writer α) : (w.put a).next = w.next + 1 := rfl

@[simp] theorem cells_put (a : α) (w : Writer α) :
    (w.put a).cells = Function.update w.cells w.next a := rfl

@[simp] theorem putAll_nil (w : Writer α) : w.putAll [] = w := rfl

theorem putAll_cons (a : α) (as : List α) (w : Writer α) :
    w.putAll (a :: as) = (w.put a).putAll as := rfl

theorem putAll_append (as bs : List α) (w : Writer α) :
    w.putAll (as ++ bs) = (w.putAll as).putAll bs := by
  rw [putAll, putAll, putAll, List.foldl_append]

@[simp] theorem next_putAll (as : List α) (w : Writer α) : (w.putAll as).next = w.next + as.length := by
  induction as generalizing w with
  | nil => rfl
  | cons a as ih =>
      rw [putAll_cons, ih, List.length_cons, next_put]
      omega

theorem contents_put (a : α) (w : Writer α) : (w.put a).contents = w.contents ++ [a] := by
  rw [contents, next_put, cells_put, List.range_succ, List.map_append, List.map_singleton,
    Function.update_self]
  congr 1
  apply List.map_congr_left
  intro i member
  exact Function.update_of_ne (Nat.ne_of_lt (List.mem_range.mp member)) a w.cells

/-- **Stores append to what was written before.** -/
theorem contents_putAll (as : List α) (w : Writer α) : (w.putAll as).contents = w.contents ++ as := by
  induction as generalizing w with
  | nil => rw [putAll_nil, List.append_nil]
  | cons a as ih => rw [putAll_cons, ih, contents_put, List.append_assoc, List.singleton_append]

@[simp] theorem stores_put (a : α) (w : Writer α) : (w.put a).stores = w.stores ++ [w.next] := rfl

/-- **Stores go to one cell after the other.** -/
theorem stores_putAll (as : List α) (w : Writer α) :
    (w.putAll as).stores = w.stores ++ List.range' w.next as.length := by
  induction as generalizing w with
  | nil => simp only [putAll_nil, List.length_nil, List.range'_zero, List.append_nil]
  | cons a as ih =>
      rw [putAll_cons, ih, stores_put, next_put, List.append_assoc, List.length_cons, List.range'_succ]
      rfl

/-- The cells behind the stores keep their contents. -/
theorem cells_putAll_of_le (as : List α) (w : Writer α) {i : ℕ} (behind : w.next + as.length ≤ i) :
    (w.putAll as).cells i = w.cells i := by
  induction as generalizing w with
  | nil => rfl
  | cons a as ih =>
      rw [List.length_cons] at behind
      have here : i ≠ w.next := by omega
      rw [putAll_cons, ih, cells_put, Function.update_of_ne here]
      rw [next_put]
      omega

@[simp] theorem next_set (a : α) (w : Writer α) : (w.set a).next = w.next := rfl

@[simp] theorem stores_set (a : α) (w : Writer α) : (w.set a).stores = w.stores ++ [w.next] := rfl

theorem cells_set_next (a : α) (w : Writer α) : (w.set a).cells w.next = a := by
  simp only [set, Function.update_self]

theorem cells_set_of_lt (a : α) (w : Writer α) {i : ℕ} (behind : w.next < i) :
    (w.set a).cells i = w.cells i := by
  simp only [set, Function.update_of_ne (Nat.ne_of_gt behind)]

/-- A store to the next cell is not part of what was written. -/
theorem contents_set (a : α) (w : Writer α) : (w.set a).contents = w.contents := by
  apply List.map_congr_left
  intro i member
  exact Function.update_of_ne (Nat.ne_of_lt (List.mem_range.mp member)) a w.cells

/-- **A copying loop writes as much as there is room for.** -/
theorem writeAll_eq (limit : ℕ) (as : List α) (w : Writer α) :
    w.writeAll limit as = w.putAll (as.take (limit - w.next)) := by
  induction as generalizing w with
  | nil => rw [List.take_nil, writeAll, putAll_nil]
  | cons a as ih =>
      rw [writeAll]
      split
      case isTrue room =>
          have left : limit - w.next = limit - (w.put a).next + 1 := by
            rw [next_put]
            omega
          rw [ih, left, List.take_succ_cons, putAll_cons]
      case isFalse full =>
          rw [Nat.sub_eq_zero_of_le (Nat.le_of_not_lt full), List.take_zero, putAll_nil]

/-- A loop that repeats one element is a loop that copies it. -/
theorem writeRepeat_eq (limit : ℕ) (a : α) (count : ℕ) (w : Writer α) :
    w.writeRepeat limit a count = w.writeAll limit (List.replicate count a) := by
  induction count generalizing w with
  | zero => rfl
  | succ count ih => simp only [writeRepeat, List.replicate_succ, writeAll, ih]

/-- A single guarded store is such a loop as well. -/
theorem write_eq (limit : ℕ) (a : α) (w : Writer α) : w.write limit a = w.writeAll limit [a] := rfl

/-- **Two loops, one after the other.** -/
theorem writeAll_append (limit : ℕ) (as bs : List α) (w : Writer α) :
    w.writeAll limit (as ++ bs) = (w.writeAll limit as).writeAll limit bs := by
  have left : limit - (w.next + (as.take (limit - w.next)).length) = limit - w.next - as.length := by
    rw [List.length_take]
    omega
  rw [writeAll_eq, writeAll_eq, writeAll_eq, next_putAll, left, ← putAll_append, List.take_append]

end Writer

end KernelV.Library
