import Mathlib.Algebra.Group.Nat.Defs
import Mathlib.Data.List.Basic
import Mathlib.Data.List.GetD
import Mathlib.Logic.Function.Basic

/-!
# Numbers in a memory of bytes

A memory maps addresses to bytes. Stores and loads move lists of bytes; a load inside a stored
stretch gives back the bytes (`loadBytes_storeBytes`), and one apart from it does not see them
(`loadBytes_storeBytes_of_apart`).

Numbers are stored with the lowest byte first. What is read is what was written, up to the
number of bytes (`leValue_leBytes`).
-/

set_option autoImplicit false

namespace KernelV.Library

universe u

/-! ## Bytes of a number -/

/-- The lowest `count` bytes of a number, the lowest first. -/
def leBytes : ℕ → ℕ → List (BitVec 8)
  | 0, _ => []
  | count + 1, value => BitVec.ofNat 8 value :: leBytes count (value / 256)

/-- The number that bytes stand for. -/
def leValue : List (BitVec 8) → ℕ
  | [] => 0
  | byte :: bytes => byte.toNat + 256 * leValue bytes

@[simp] theorem length_leBytes (count value : ℕ) : (leBytes count value).length = count := by
  induction count generalizing value with
  | zero => rfl
  | succ count ih => rw [leBytes, List.length_cons, ih]

/-- **What is read is what was written.** -/
theorem leValue_leBytes {count value : ℕ} (fits : value < 256 ^ count) :
    leValue (leBytes count value) = value := by
  induction count generalizing value with
  | zero =>
      rw [Nat.pow_zero] at fits
      exact (Nat.lt_one_iff.mp fits).symm
  | succ count ih =>
      have rest : value / 256 < 256 ^ count := by
        rw [Nat.pow_succ] at fits
        exact Nat.div_lt_of_lt_mul (by rwa [Nat.mul_comm] at fits)
      rw [leBytes, leValue, ih rest, BitVec.toNat_ofNat]
      exact Nat.mod_add_div value 256

theorem leValue_lt (bytes : List (BitVec 8)) : leValue bytes < 256 ^ bytes.length := by
  induction bytes with
  | nil => exact Nat.one_pos
  | cons byte bytes ih =>
      have bound := byte.isLt
      rw [leValue, List.length_cons, Nat.pow_succ]
      omega

/-- The bytes of the number that bytes stand for. -/
theorem leBytes_leValue (bytes : List (BitVec 8)) : leBytes bytes.length (leValue bytes) = bytes := by
  induction bytes with
  | nil => rfl
  | cons byte bytes ih =>
      have bound := byte.isLt
      have rest : (byte.toNat + 256 * leValue bytes) / 256 = leValue bytes := by omega
      have first : BitVec.ofNat 8 (byte.toNat + 256 * leValue bytes) = byte := by
        apply BitVec.eq_of_toNat_eq
        rw [BitVec.toNat_ofNat]
        omega
      rw [List.length_cons, leValue, leBytes, rest, first, ih]

/-- Words of a fixed width fit their bytes. -/
theorem ofNat_leValue_leBytes {w count : ℕ} (word : BitVec w) (bytes : w = 8 * count) :
    BitVec.ofNat w (leValue (leBytes count word.toNat)) = word := by
  have fits : word.toNat < 256 ^ count := by
    have bound := word.isLt
    have power : 2 ^ w = 256 ^ count := by rw [bytes, Nat.pow_mul]
    rwa [← power]
  rw [leValue_leBytes fits, BitVec.ofNat_toNat, BitVec.setWidth_eq]

/-! ## Stores and loads -/

variable {α : Type u}

/-- Consecutive stores. -/
def storeBytes (addr : ℕ) : List α → (ℕ → α) → ℕ → α
  | [], mem => mem
  | a :: as, mem => storeBytes (addr + 1) as (Function.update mem addr a)

/-- Consecutive loads. -/
def loadBytes (mem : ℕ → α) (addr count : ℕ) : List α := (List.range count).map fun i => mem (addr + i)

theorem storeBytes_of_lt {addr place : ℕ} (below : place < addr) (as : List α) (mem : ℕ → α) :
    storeBytes addr as mem place = mem place := by
  induction as generalizing addr mem with
  | nil => rfl
  | cons a as ih =>
      rw [storeBytes, ih (Nat.lt_succ_of_lt below)]
      exact Function.update_of_ne (Nat.ne_of_lt below) a mem

theorem storeBytes_of_le {addr place : ℕ} {as : List α} (above : addr + as.length ≤ place)
    (mem : ℕ → α) : storeBytes addr as mem place = mem place := by
  induction as generalizing addr mem with
  | nil => rfl
  | cons a as ih =>
      rw [List.length_cons] at above
      have behind : addr + 1 + as.length ≤ place := by omega
      have apart : place ≠ addr := by omega
      rw [storeBytes, ih behind]
      exact Function.update_of_ne apart a mem

theorem storeBytes_inside (addr : ℕ) {as : List α} {i : ℕ} (inside : i < as.length) (mem : ℕ → α) :
    storeBytes addr as mem (addr + i) = as[i] := by
  induction as generalizing addr mem i with
  | nil => exact absurd inside (Nat.not_lt_zero i)
  | cons a as ih =>
      cases i with
      | zero =>
          refine (storeBytes_of_lt (Nat.lt_succ_self addr) as _).trans ?_
          exact Function.update_self addr a mem
      | succ i =>
          have later := ih (addr + 1) (Nat.lt_of_succ_lt_succ inside) (Function.update mem addr a)
          rw [Nat.add_assoc, Nat.add_comm 1 i] at later
          exact later

/-- What a stretch holds behind its end is what the memory held. -/
theorem storeBytes_getD (addr : ℕ) (as : List α) (i : ℕ) (mem : ℕ → α) :
    storeBytes addr as mem (addr + i) = as.getD i (mem (addr + i)) := by
  by_cases inside : i < as.length
  · rw [storeBytes_inside addr inside, List.getD_eq_getElem _ _ inside]
  · rw [storeBytes_of_le (by omega), List.getD_eq_default _ _ (Nat.le_of_not_lt inside)]

/-- **A load inside a stored stretch.** -/
theorem loadBytes_storeBytes (addr : ℕ) (before as behind : List α) (mem : ℕ → α) :
    loadBytes (storeBytes addr (before ++ (as ++ behind)) mem) (addr + before.length) as.length = as := by
  apply List.ext_getElem
  · rw [loadBytes, List.length_map, List.length_range]
  · intro i loaded inside
    have place : before.length + i < (before ++ (as ++ behind)).length := by
      rw [List.length_append, List.length_append]
      omega
    simp only [loadBytes, List.getElem_map, List.getElem_range, Nat.add_assoc,
      storeBytes_inside addr place mem, List.getElem_append_right (Nat.le_add_right _ i),
      Nat.add_sub_cancel_left, List.getElem_append_left inside]

/-- Loads see only the bytes they load. -/
theorem loadBytes_congr {mem mem' : ℕ → α} {addr count : ℕ}
    (same : ∀ i < count, mem (addr + i) = mem' (addr + i)) :
    loadBytes mem addr count = loadBytes mem' addr count := by
  apply List.map_congr_left
  intro i member
  exact same i (List.mem_range.mp member)

/-- **A load apart from a stored stretch.** -/
theorem loadBytes_storeBytes_of_apart {addr place count : ℕ} {as : List α}
    (apart : place + count ≤ addr ∨ addr + as.length ≤ place) (mem : ℕ → α) :
    loadBytes (storeBytes addr as mem) place count = loadBytes mem place count := by
  apply loadBytes_congr
  intro i inside
  rcases apart with below | above
  · exact storeBytes_of_lt (by omega) as mem
  · exact storeBytes_of_le (by omega) mem

end KernelV.Library
