import Mathlib.Data.Nat.ModEq
import Mathlib.Logic.Function.Basic

/-!
# Tables in a flat memory

A memory is a map from word addresses to values. A table is a run of `entries`
cells, `stride` addresses apart, at a base aligned to the size of the table. Two
such tables are equal or disjoint, so a cell address determines the base and the
index (`cellAddr_eq_iff`), and writing the cells of one table leaves every cell of
the others alone (`storeCells_cellAddr`).
-/

set_option autoImplicit false

namespace KernelV.Library

universe u

variable {α : Type u} {w : ℕ}

/-- The address of a cell of the table at `base`. -/
def cellAddr (stride : ℕ) (base : BitVec w) (index : ℕ) : BitVec w :=
  base + BitVec.ofNat w (stride * index)

/-- Cells counted from a cell. -/
theorem cellAddr_cellAddr (stride : ℕ) (base : BitVec w) (index more : ℕ) :
    cellAddr stride (cellAddr stride base index) more = cellAddr stride base (index + more) := by
  rw [cellAddr, cellAddr, cellAddr, Nat.mul_add, BitVec.ofNat_add, BitVec.add_assoc]

/-- The first `count` cells of a table written in order. -/
def storeCells (stride : ℕ) (base : BitVec w) (value : ℕ → α) :
    ℕ → (BitVec w → α) → BitVec w → α
  | 0, mem => mem
  | count + 1, mem =>
      Function.update (storeCells stride base value count mem) (cellAddr stride base count)
        (value count)

section Aligned

variable {stride entries : ℕ} {base base' : BitVec w}

/-- Cells of a table do not wrap around. -/
theorem toNat_cellAddr (divides : stride * entries ∣ 2 ^ w) (positive : 0 < stride)
    (aligned : stride * entries ∣ base.toNat) {index : ℕ} (within : index < entries) :
    (cellAddr stride base index).toNat = base.toNat + stride * index := by
  obtain ⟨tables, whole⟩ := divides
  obtain ⟨table, place⟩ := aligned
  have offset : stride * index < stride * entries := Nat.mul_lt_mul_of_pos_left within positive
  have below : base.toNat + stride * entries ≤ 2 ^ w := by
    have bound := base.isLt
    rw [whole, place] at bound
    have next : table + 1 ≤ tables := Nat.lt_of_mul_lt_mul_left bound
    calc base.toNat + stride * entries = stride * entries * (table + 1) := by
          rw [place, Nat.mul_add, Nat.mul_one]
      _ ≤ stride * entries * tables := Nat.mul_le_mul_left _ next
      _ = 2 ^ w := whole.symm
  rw [cellAddr, BitVec.toNat_add, BitVec.toNat_ofNat, Nat.add_mod_mod]
  exact Nat.mod_eq_of_lt (by omega)

/-- **A cell address determines the table and the index.** -/
theorem cellAddr_eq_iff (divides : stride * entries ∣ 2 ^ w) (positive : 0 < stride)
    (aligned : stride * entries ∣ base.toNat) (aligned' : stride * entries ∣ base'.toNat)
    {index index' : ℕ} (within : index < entries) (within' : index' < entries) :
    cellAddr stride base index = cellAddr stride base' index' ↔ base = base' ∧ index = index' := by
  constructor
  · intro equal
    have values := congrArg BitVec.toNat equal
    rw [toNat_cellAddr divides positive aligned within,
      toNat_cellAddr divides positive aligned' within'] at values
    have offset : stride * index < stride * entries := Nat.mul_lt_mul_of_pos_left within positive
    have offset' : stride * index' < stride * entries := Nat.mul_lt_mul_of_pos_left within' positive
    -- The offset inside the table is the remainder of the address.
    have remainders : stride * index = stride * index' := by
      have := congrArg (· % (stride * entries)) values
      simpa only [Nat.add_mod, Nat.mod_eq_zero_of_dvd aligned, Nat.mod_eq_zero_of_dvd aligned',
        Nat.zero_add, Nat.mod_mod, Nat.mod_eq_of_lt offset, Nat.mod_eq_of_lt offset'] using this
    refine ⟨BitVec.eq_of_toNat_eq (by omega), Nat.eq_of_mul_eq_mul_left positive remainders⟩
  · rintro ⟨rfl, rfl⟩
    rfl

/-- A single write to a cell, seen from any cell. -/
theorem update_cellAddr (divides : stride * entries ∣ 2 ^ w) (positive : 0 < stride)
    (aligned : stride * entries ∣ base.toNat) (aligned' : stride * entries ∣ base'.toNat)
    {index index' : ℕ} (within : index < entries) (within' : index' < entries)
    (mem : BitVec w → α) (value : α) :
    Function.update mem (cellAddr stride base index) value (cellAddr stride base' index') =
      if base' = base ∧ index' = index then value else mem (cellAddr stride base' index') := by
  rw [Function.update_apply]
  simp only [cellAddr_eq_iff divides positive aligned' aligned within' within]

/-- **Writing a table changes the cells of that table only.** -/
theorem storeCells_cellAddr (divides : stride * entries ∣ 2 ^ w) (positive : 0 < stride)
    (aligned : stride * entries ∣ base.toNat) (aligned' : stride * entries ∣ base'.toNat)
    {count index : ℕ} (fits : count ≤ entries) (within : index < entries) (value : ℕ → α)
    (mem : BitVec w → α) :
    storeCells stride base value count mem (cellAddr stride base' index) =
      if base' = base ∧ index < count then value index else mem (cellAddr stride base' index) := by
  induction count with
  | zero => simp [storeCells]
  | succ count ih =>
      rw [storeCells, update_cellAddr divides positive aligned aligned' fits within,
        ih (by omega)]
      by_cases same : base' = base
      · by_cases last : index = count
        · simp [same, last]
        · have earlier : index < count + 1 ↔ index < count := by omega
          simp [last, earlier]
      · simp [same]

end Aligned

end KernelV.Library
