import Mathlib.Data.BitVec
import Mathlib.Data.List.Induction
import KernelV.Library.TableMemory

/-!
# A stack in a flat memory

A stack is a pointer into a memory of words. Pushing moves the pointer down by one
slot and stores there. As long as the slots do not go once around the address space,
the stack holds the values pushed, last one first (`Stack.holds_pushAll`), and a value
is found at its distance from the pointer. Nothing else changes
(`Stack.mem_pushAll_of_outside`). Popping takes the slots one after the other
(`Stack.pop_drop`).
-/

set_option autoImplicit false

namespace KernelV.Library

universe u

variable {α : Type u} {w : ℕ}

/-- A stack pointer and the memory it points into. -/
structure Stack (w : ℕ) (α : Type u) where
  pointer : BitVec w
  mem : BitVec w → α

namespace Stack

def push (stride : ℕ) (value : α) (s : Stack w α) : Stack w α :=
  let pointer := s.pointer - BitVec.ofNat w stride
  ⟨pointer, Function.update s.mem pointer value⟩

/-- The value at the top, and the stack below it. -/
def pop (stride : ℕ) (s : Stack w α) : α × Stack w α :=
  (s.mem s.pointer, ⟨s.pointer + BitVec.ofNat w stride, s.mem⟩)

/-- Values pushed in order. -/
def pushAll (stride : ℕ) (values : List α) (s : Stack w α) : Stack w α :=
  values.foldl (fun s value => s.push stride value) s

/-- The value a number of slots above the pointer. -/
def slot (stride : ℕ) (s : Stack w α) (index : ℕ) : α := s.mem (cellAddr stride s.pointer index)

/-- The stack below a number of slots. -/
def drop (stride : ℕ) (s : Stack w α) (count : ℕ) : Stack w α :=
  ⟨cellAddr stride s.pointer count, s.mem⟩

/-- The stack has these values on top, the first one topmost. -/
def Holds (stride : ℕ) (s : Stack w α) (values : List α) : Prop :=
  ∀ index value, values[index]? = some value → s.slot stride index = value

variable {stride : ℕ} {s : Stack w α}

/-! ## Taking values off -/

theorem drop_zero (stride : ℕ) (s : Stack w α) : s.drop stride 0 = s := by
  rw [drop, cellAddr, Nat.mul_zero, BitVec.add_zero]

theorem drop_drop (stride : ℕ) (s : Stack w α) (count more : ℕ) :
    (s.drop stride count).drop stride more = s.drop stride (count + more) := by
  rw [drop, drop, drop, cellAddr_cellAddr]

/-- One slot further up. -/
theorem drop_succ (stride : ℕ) (s : Stack w α) (count : ℕ) :
    s.drop stride (count + 1) =
      ⟨(s.drop stride count).pointer + BitVec.ofNat w stride, (s.drop stride count).mem⟩ := by
  rw [← drop_drop, drop, cellAddr, Nat.mul_one]

/-- A pop after some others takes the next slot. -/
theorem pop_drop (stride : ℕ) (s : Stack w α) (count : ℕ) :
    (s.drop stride count).pop stride = (s.slot stride count, s.drop stride (count + 1)) := by
  rw [drop_succ]
  rfl

/-- As many slots up as values were pushed, the pointer is where it was. -/
theorem pointer_drop_pushAll (stride : ℕ) (values : List α) (s : Stack w α) :
    ((s.pushAll stride values).drop stride values.length).pointer = s.pointer := by
  induction values generalizing s with
  | nil => exact congrArg pointer (drop_zero stride s)
  | cons value values ih =>
      rw [List.length_cons, drop_succ, pushAll, List.foldl_cons]
      exact (congrArg (· + BitVec.ofNat w stride) (ih (s.push stride value))).trans
        (BitVec.sub_add_cancel _ _)

/-! ## Pushing values -/

/-- One slot further up from a lower pointer is the same address. -/
theorem cellAddr_pointer_push (value : α) (index : ℕ) :
    cellAddr stride (s.push stride value).pointer (index + 1) = cellAddr stride s.pointer index := by
  rw [cellAddr, cellAddr, Nat.mul_succ, BitVec.ofNat_add, BitVec.add_comm (BitVec.ofNat w _),
    ← BitVec.add_assoc]
  exact congrArg (· + _) (BitVec.sub_add_cancel _ _)

/-- The slots above the pointer are not the one below it. -/
theorem cellAddr_ne_pointer_push (positive : 0 < stride) (value : α) {index : ℕ}
    (fits : stride * (index + 1) < 2 ^ w) :
    cellAddr stride s.pointer index ≠ (s.push stride value).pointer := by
  rw [← cellAddr_pointer_push value index, cellAddr]
  intro same
  have zero := add_eq_left.mp same
  have value := congrArg BitVec.toNat zero
  rw [BitVec.toNat_ofNat, Nat.mod_eq_of_lt fits] at value
  exact absurd value (Nat.mul_pos positive index.succ_pos).ne'

/-- A push leaves what lies above the pointer alone. -/
theorem mem_push (positive : 0 < stride) (value : α) {index : ℕ}
    (fits : stride * (index + 1) < 2 ^ w) :
    (s.push stride value).mem (cellAddr stride s.pointer index) =
      s.mem (cellAddr stride s.pointer index) :=
  Function.update_of_ne (cellAddr_ne_pointer_push positive value fits) _ _

theorem Holds.push {values : List α} (holds : s.Holds stride values) (positive : 0 < stride)
    (fits : stride * (values.length + 1) ≤ 2 ^ w) (value : α) :
    (s.push stride value).Holds stride (value :: values) := by
  intro index found lookup
  cases index with
  | zero =>
      rw [List.getElem?_cons_zero, Option.some.injEq] at lookup
      rw [slot, cellAddr, Nat.mul_zero, BitVec.add_zero, ← lookup]
      exact Function.update_self _ _ _
  | succ index =>
      rw [List.getElem?_cons_succ] at lookup
      have within : index < values.length := (List.getElem?_eq_some_iff.mp lookup).1
      have below : stride * (index + 1) < 2 ^ w :=
        (Nat.mul_lt_mul_of_pos_left (Nat.succ_lt_succ within) positive).trans_le fits
      rw [slot, cellAddr_pointer_push, mem_push positive value below]
      exact holds index found lookup

/-- **A stack holds what was pushed, last value first.** -/
theorem holds_pushAll (positive : 0 < stride) (values : List α)
    (fits : stride * values.length ≤ 2 ^ w) : (s.pushAll stride values).Holds stride values.reverse := by
  induction values using List.reverseRecOn with
  | nil =>
      intro index value lookup
      cases lookup
  | append_singleton values value ih =>
      rw [List.length_append, List.length_singleton] at fits
      have earlier := ih (le_trans (Nat.mul_le_mul_left _ (Nat.le_succ _)) fits)
      rw [List.reverse_append, pushAll, List.foldl_append]
      refine Holds.push earlier positive ?_ value
      rw [List.length_reverse]
      exact fits

theorem toNat_pointer_push (value : α) (room : stride ≤ s.pointer.toNat) :
    (s.push stride value).pointer.toNat = s.pointer.toNat - stride := by
  have small := s.pointer.isLt
  have slot : (BitVec.ofNat w stride).toNat = stride := by
    rw [BitVec.toNat_ofNat]
    exact Nat.mod_eq_of_lt (by omega)
  have fits : BitVec.ofNat w stride ≤ s.pointer := by
    rw [BitVec.le_def, slot]
    exact room
  exact (BitVec.toNat_sub_of_le fits).trans (congrArg _ slot)

/-- **Values pushed go to the slots below the pointer**, if the stack has room for them. -/
theorem mem_pushAll_of_outside (positive : 0 < stride) (values : List α)
    (room : stride * values.length ≤ s.pointer.toNat) {addr : BitVec w}
    (outside : addr.toNat + stride * values.length < s.pointer.toNat ∨ s.pointer.toNat ≤ addr.toNat) :
    (s.pushAll stride values).mem addr = s.mem addr := by
  induction values generalizing s with
  | nil => rfl
  | cons value values ih =>
      rw [List.length_cons, Nat.mul_succ] at room outside
      have pointer := toNat_pointer_push value ((Nat.le_add_left _ _).trans room)
      have different : addr ≠ (s.push stride value).pointer := by
        rintro rfl
        omega
      have rest : ((s.push stride value).pushAll stride values).mem addr = (s.push stride value).mem addr :=
        ih (by omega) (by omega)
      exact rest.trans (Function.update_of_ne different _ _)

end Stack

end KernelV.Library
