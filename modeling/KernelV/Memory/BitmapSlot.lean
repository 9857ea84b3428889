import KernelV.Memory.HighMemory
import KernelV.Memory.PmmRuns

/-!
# The slot of the frame bitmap

The bitmap starts at `0x90000`. Above it lie the boot stack, which `_start` lets grow down from
`0x9FB00`, the extended BIOS data area from `0x9FC00` on and the video memory. `pmm_init` puts
the bitmap there without a look at its length, and the length follows the highest region end.

What `pmm_init` writes is read off its effect on the memory: a byte is written if some content
of it does not survive. These are the first `max_frame_idx / 8 + 1` bytes (`writes_iff`). They
end at or below the stack exactly when every region, read in 32 bits, ends below `0x7D800000`
(`inSlot_iff`). A machine with 2 GiB of memory does not meet this.
-/

set_option autoImplicit false

namespace KernelV.Memory

open Library

/-- The stack pointer that `_start` sets. -/
def bootStackTop : Word := 0x9FB00

/-- Where the extended BIOS data area starts, and after it the video memory. -/
def ebdaStart : Word := 0x9FC00

/-- `pmm_init` writes the byte at an address: it changes some content of it. -/
def Writes (table : RegionTable) (addr : ℕ) : Prop :=
  ∃ frameBitmap fuel t idx, pmmInit fuel table (.fresh frameBitmap) = some t ∧
    addr = frameBitmapAddr.toNat + idx ∧ t.frameBitmap idx ≠ frameBitmap idx

/-- After a run that ends in `t`, the bytes written are those of a bitmap for `max_frame_idx`
frames, and they meet neither the boot stack nor what lies above it. -/
structure InSlot (table : RegionTable) (t : Pmm) : Prop where
  extent : ∀ addr, Writes table addr ↔ frameBitmapAddr.toNat ≤ addr ∧
    addr < frameBitmapAddr.toNat + (t.maxFrameIdx.toNat / 8 + 1)
  below_stack : frameBitmapAddr.toNat + (t.maxFrameIdx.toNat / 8 + 1) ≤ bootStackTop.toNat
  below_ebda : ∀ addr, Writes table addr → addr < ebdaStart.toNat

namespace Initialized

variable {table : RegionTable} {frameBitmap frameBitmap' : ℕ → BitVec 8} {t t' : Pmm} {idx : ℕ}

/-- The bytes behind the bitmap are left alone. -/
theorem frameBitmap_of_le (init : Initialized table frameBitmap t)
    (behind : table.topFrame / 8 + 1 ≤ idx) :
    t.frameBitmap idx = frameBitmap idx := by
  refine cell_ext (by decide) fun frame cell => ?_
  have notFreed : ¬ (frame ∈ table.frames ∧ frame < table.topFrame) := by omega
  have notFilled : ¬ frame / 8 < table.topFrame / 8 + 1 := by omega
  have bit : t.isUsed frame = getBit frameBitmap frame := by
    rw [init.isUsed]
    simp only [notFreed, notFilled, decide_false, Bool.not_false, Bool.true_and, Bool.false_or]
  exact bit

/-- The bytes of the bitmap do not depend on what they were. -/
theorem frameBitmap_eq (init : Initialized table frameBitmap t) (init' : Initialized table frameBitmap' t')
    (within : idx < table.topFrame / 8 + 1) : t.frameBitmap idx = t'.frameBitmap idx := by
  refine cell_ext (by decide) fun frame cell => ?_
  have filled : frame / 8 < table.topFrame / 8 + 1 := by omega
  have bit : t.isUsed frame = t'.isUsed frame := by
    rw [init.isUsed, init'.isUsed]
    simp only [filled, decide_true, Bool.true_or]
  exact bit

end Initialized

section Slot

variable {table : RegionTable} {fuel : ℕ} {frameBitmap : ℕ → BitVec 8} {t : Pmm}

/-- **The bytes written are those of the bitmap.** -/
theorem writes_iff (ends : ∀ region ∈ table.regions, region.Ends) {addr : ℕ} :
    Writes table addr ↔ frameBitmapAddr.toNat ≤ addr ∧
      addr < frameBitmapAddr.toNat + (table.topFrame / 8 + 1) := by
  constructor
  · rintro ⟨frameBitmap, fuel, t, idx, ended, rfl, changed⟩
    refine ⟨Nat.le_add_right _ _, ?_⟩
    by_contra behind
    exact changed ((initialized_of_pmmInit ended).2.frameBitmap_of_le (by omega))
  · rintro ⟨above, below⟩
    obtain ⟨idx, rfl⟩ := Nat.exists_eq_add_of_le above
    obtain ⟨t, ended⟩ := exists_pmmInit table ends (.fresh fun _ => 0)
    obtain ⟨t', ended'⟩ := exists_pmmInit table ends (.fresh fun _ => 1)
    have within : idx < table.topFrame / 8 + 1 := by omega
    have same :=
      (initialized_of_pmmInit ended).2.frameBitmap_eq (initialized_of_pmmInit ended').2 within
    -- The byte cannot agree with both contents.
    by_cases zero : t.frameBitmap idx = 0
    · refine ⟨_, _, t', idx, ended', rfl, ?_⟩
      rw [← same, zero]
      decide
    · exact ⟨_, _, t, idx, ended, rfl, zero⟩

/-- The bitmap of `top` frames ends at or below the stack. -/
theorem endsBelowStack_iff {top : ℕ} :
    frameBitmapAddr.toNat + (top / 8 + 1) ≤ bootStackTop.toNat ↔ top ≤ 0x7D7FF := by
  have start : frameBitmapAddr.toNat = 0x90000 := rfl
  have stack : bootStackTop.toNat = 0x9FB00 := rfl
  omega

/-- **The bitmap fits in its slot exactly when every region ends below `0x7D800000`**, in the
32 bits in which `pmm_init` computes the end. -/
theorem inSlot_iff (ended : pmmInit fuel table (.fresh frameBitmap) = some t) :
    InSlot table t ↔ ∀ region ∈ table.regions, region.regionEnd < 0x7D800000 := by
  obtain ⟨ends, init⟩ := initialized_of_pmmInit ended
  have fits : (∀ region ∈ table.regions, region.regionEnd < 0x7D800000) ↔
      frameBitmapAddr.toNat + (t.maxFrameIdx.toNat / 8 + 1) ≤ bootStackTop.toNat := by
    rw [endsBelowStack_iff, init.maxFrameIdx, RegionTable.topFrame_le_iff]
    refine forall₂_congr fun region _ => ?_
    have bound : (0x7D800000 : Word).toNat = 0x7D800000 := rfl
    rw [BitVec.lt_def, bound, MemoryRegion.endFrame]
    omega
  rw [fits]
  constructor
  · exact fun slot => slot.below_stack
  · intro below
    have extent (addr : ℕ) : Writes table addr ↔ frameBitmapAddr.toNat ≤ addr ∧
        addr < frameBitmapAddr.toNat + (t.maxFrameIdx.toNat / 8 + 1) := by
      rw [init.maxFrameIdx]
      exact writes_iff ends
    refine ⟨extent, below, fun addr written => ?_⟩
    have stack : bootStackTop.toNat < ebdaStart.toNat := by decide
    have inside := ((extent addr).mp written).2
    omega

end Slot

/-- The sample table has its bitmap in the slot. -/
theorem inSlot_sampleTable :
    ∃ t, pmmInit (2 ^ 20 + 1) sampleTable (.fresh fun _ => 0) = some t ∧ InSlot sampleTable t := by
  obtain ⟨t, ended⟩ := exists_pmmInit sampleTable (by decide) (.fresh fun _ => 0)
  exact ⟨t, ended, (inSlot_iff ended).mpr (by decide)⟩

/-- The memory from 1 MiB to 2 GiB. -/
def twoGiBTable : RegionTable where
  regions := [{ base := 0x100000, length := 0x7FF00000, type := e820TypeAvailable }]
  bounded := by decide

/-- With 2 GiB the bitmap runs over the boot stack and into the video memory. -/
theorem not_inSlot_twoGiBTable :
    ∃ t, pmmInit (2 ^ 20 + 1) twoGiBTable (.fresh fun _ => 0) = some t ∧
      Writes twoGiBTable bootStackTop.toNat ∧ Writes twoGiBTable 0xA0000 ∧ ¬ InSlot twoGiBTable t := by
  have ends : ∀ region ∈ twoGiBTable.regions, region.Ends := by decide
  obtain ⟨t, ended⟩ := exists_pmmInit twoGiBTable ends (.fresh fun _ => 0)
  have video : Writes twoGiBTable 0xA0000 := (writes_iff ends).mpr (by decide)
  refine ⟨t, ended, (writes_iff ends).mpr (by decide), video, fun slot => ?_⟩
  exact absurd (slot.below_ebda _ video) (by decide)

end KernelV.Memory
