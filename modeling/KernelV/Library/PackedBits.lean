import Mathlib.Data.Nat.Notation
import Mathlib.Logic.Function.Basic

/-!
# Bits packed into an array of cells

An unbounded array of bits kept in cells of `w` bits each: bit `idx` is bit
`idx % w` of cell `idx / w`. Setting, clearing and testing a bit go through a
one-bit mask. The three operations behave as a map from indices to truth values
updated at one index (`getBit_setBit`, `getBit_clearBit`), and two arrays with the same bits
are equal (`cells_ext`).
-/

set_option autoImplicit false

namespace KernelV.Library

variable {w : ℕ}

/-- The mask of one bit inside its cell. -/
def bitMask (w idx : ℕ) : BitVec w := 1#w <<< (idx % w)

/-- Whether the masked cell is not zero. -/
def getBit (cells : ℕ → BitVec w) (idx : ℕ) : Bool :=
  cells (idx / w) &&& bitMask w idx != 0#w

def setBit (cells : ℕ → BitVec w) (idx : ℕ) : ℕ → BitVec w :=
  Function.update cells (idx / w) (cells (idx / w) ||| bitMask w idx)

def clearBit (cells : ℕ → BitVec w) (idx : ℕ) : ℕ → BitVec w :=
  Function.update cells (idx / w) (cells (idx / w) &&& ~~~bitMask w idx)

/-- The first `count` cells overwritten with one value. -/
def fillCells (cells : ℕ → BitVec w) (value : BitVec w) : ℕ → ℕ → BitVec w
  | 0 => cells
  | count + 1 => Function.update (fillCells cells value count) count value

theorem fillCells_apply (cells : ℕ → BitVec w) (value : BitVec w) (count cell : ℕ) :
    fillCells cells value count cell = if cell < count then value else cells cell := by
  induction count with
  | zero => simp [fillCells]
  | succ count ih =>
      by_cases here : cell = count
      · subst here
        simp [fillCells]
      · rw [fillCells, Function.update_of_ne here, ih]
        have same : cell < count ↔ cell < count + 1 := by omega
        simp only [same]

/-! ## Bits as a map from indices -/

/-- Inside one cell the place determines the index. -/
theorem eq_iff_of_same_cell {first second : ℕ} (cell : first / w = second / w) :
    first = second ↔ first % w = second % w := by
  constructor
  · rintro rfl
    rfl
  · intro place
    rw [← Nat.div_add_mod first w, cell, place, Nat.div_add_mod]

section Positive

variable (positive : 0 < w)
include positive

theorem getLsbD_bitMask (idx position : ℕ) :
    (bitMask w idx).getLsbD position = decide (position = idx % w) := by
  have small : idx % w < w := Nat.mod_lt _ positive
  rw [bitMask, ← BitVec.twoPow_eq, BitVec.getLsbD_twoPow]
  simp only [small, decide_true, Bool.true_and, eq_comm]

/-- The masked test reads one bit of one cell. -/
theorem getBit_eq_getLsbD (cells : ℕ → BitVec w) (idx : ℕ) :
    getBit cells idx = (cells (idx / w)).getLsbD (idx % w) := by
  have small : idx % w < w := Nat.mod_lt _ positive
  rw [getBit, bitMask, ← BitVec.twoPow_eq, BitVec.and_twoPow]
  cases bit : (cells (idx / w)).getLsbD (idx % w) with
  | false => simp
  | true =>
      have notZero : BitVec.twoPow w (idx % w) ≠ 0#w := by
        intro zero
        have := congrArg (fun cell => cell.getLsbD (idx % w)) zero
        simp [small] at this
      simpa using notZero

/-- The bits of a cell determine it. -/
theorem cell_ext {cells other : ℕ → BitVec w} {cell : ℕ}
    (same : ∀ idx, idx / w = cell → getBit cells idx = getBit other idx) :
    cells cell = other cell := by
  apply BitVec.eq_of_getLsbD_eq
  intro position below
  have place : (w * cell + position) / w = cell := by
    rw [Nat.mul_add_div positive, Nat.div_eq_of_lt below, Nat.add_zero]
  have bit := same (w * cell + position) place
  rwa [getBit_eq_getLsbD positive, getBit_eq_getLsbD positive, place, Nat.mul_add_mod,
    Nat.mod_eq_of_lt below] at bit

/-- The bits determine the cells. -/
theorem cells_ext {cells other : ℕ → BitVec w} (same : ∀ idx, getBit cells idx = getBit other idx) :
    cells = other := by
  funext cell
  exact cell_ext positive fun idx _ => same idx

/-- **Setting a bit sets that bit only.** -/
theorem getBit_setBit (cells : ℕ → BitVec w) (idx other : ℕ) :
    getBit (setBit cells idx) other = (decide (other = idx) || getBit cells other) := by
  rw [getBit_eq_getLsbD positive, getBit_eq_getLsbD positive, setBit]
  by_cases cell : other / w = idx / w
  · rw [cell, Function.update_self, BitVec.getLsbD_or, getLsbD_bitMask positive]
    simp only [eq_iff_of_same_cell cell, Bool.or_comm]
  · rw [Function.update_of_ne cell]
    have different : other ≠ idx := fun same => cell (congrArg (· / w) same)
    simp [different]

/-- **Clearing a bit clears that bit only.** -/
theorem getBit_clearBit (cells : ℕ → BitVec w) (idx other : ℕ) :
    getBit (clearBit cells idx) other = (!decide (other = idx) && getBit cells other) := by
  have small : other % w < w := Nat.mod_lt _ positive
  rw [getBit_eq_getLsbD positive, getBit_eq_getLsbD positive, clearBit]
  by_cases cell : other / w = idx / w
  · rw [cell, Function.update_self, BitVec.getLsbD_and, BitVec.getLsbD_not,
      getLsbD_bitMask positive]
    simp only [eq_iff_of_same_cell cell, small, decide_true, Bool.true_and, Bool.and_comm]
  · rw [Function.update_of_ne cell]
    have different : other ≠ idx := fun same => cell (congrArg (· / w) same)
    simp [different]

/-- Cells of ones are set bits. -/
theorem getBit_fillCells_allOnes (cells : ℕ → BitVec w) (count idx : ℕ) :
    getBit (fillCells cells (BitVec.allOnes w) count) idx =
      (decide (idx / w < count) || getBit cells idx) := by
  have small : idx % w < w := Nat.mod_lt _ positive
  rw [getBit_eq_getLsbD positive, getBit_eq_getLsbD positive, fillCells_apply]
  by_cases below : idx / w < count
  · simp [below, small]
  · simp [below]

end Positive

end KernelV.Library
