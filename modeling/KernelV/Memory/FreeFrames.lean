import KernelV.Memory.UsableMemory

/-!
# Which frames `pmm_init` frees, and how it counts them

For regions that end at or below the last page, `pmm_init` frees every frame that a region
fills and no frame that no region meets (`freed_of_pmmInit`). The frames between, which a
region meets without filling them, are freed if the region steps into them: if the address
with the offset of its base lies in the region.

The counter of free frames is raised once for every step, also when the bit was clear before.
It is the number of free frames exactly when no two regions step into the same frame
(`totalFrames_exact_iff`). Two regions that share no byte can still share a frame.
-/

set_option autoImplicit false

namespace KernelV.Memory

open Library

namespace MemoryRegion

/-- The region has a byte in the frame. -/
def Meets (region : MemoryRegion) (frame : ℕ) : Prop :=
  ∃ addr, region.Contains addr ∧ addr / 4096 = frame

/-- The address of the frame with the offset of the base lies in the region. -/
def StepsInto (region : MemoryRegion) (frame : ℕ) : Prop :=
  region.Contains (4096 * frame + region.base.toNat % 4096)

variable {region : MemoryRegion} {frame : ℕ}

theorem StepsInto.meets (steps : region.StepsInto frame) : region.Meets frame :=
  ⟨_, steps, by omega⟩

/-- The loop of `pmm_init` goes through the frames that the region steps into. -/
theorem Fits.mem_frames_iff_stepsInto (fits : region.Fits) :
    frame ∈ region.frames ↔ region.StepsInto frame := by
  rw [fits.mem_frames, StepsInto, Contains]
  omega

theorem Fills.stepsInto (fills : region.Fills frame) : region.StepsInto frame := by
  rw [Fills] at fills
  rw [StepsInto, Contains]
  omega

/-- A frame that is filled lies below the end of the region. -/
theorem Fills.lt_endFrame (fits : region.Fits) (fills : region.Fills frame) : frame < region.endFrame := by
  rw [Fills] at fills
  rw [endFrame, fits.toNat_regionEnd]
  omega

end MemoryRegion

section Fitting

variable {table : RegionTable} (fits : ∀ region ∈ table.regions, region.Fits)
  {frameBitmap : ℕ → BitVec 8} {t : Pmm}
include fits

theorem exists_pmmInit_of_fits (s : Pmm) : ∃ fuel t, pmmInit fuel table s = some t := by
  obtain ⟨t, init⟩ := exists_pmmInit table (fun region member => (fits region member).ends) s
  exact ⟨_, t, init⟩

theorem mem_frames_iff_stepsInto {frame : ℕ} :
    frame ∈ table.frames ↔ ∃ region ∈ table.regions, region.StepsInto frame := by
  rw [RegionTable.mem_frames]
  constructor
  · rintro ⟨region, member, inside⟩
    exact ⟨region, member, (fits region member).mem_frames_iff_stepsInto.mp inside⟩
  · rintro ⟨region, member, steps⟩
    exact ⟨region, member, (fits region member).mem_frames_iff_stepsInto.mpr steps⟩

/-- A frame that some region fills is free. -/
theorem Initialized.free_of_fills (init : Initialized table frameBitmap t) {region : MemoryRegion}
    (member : region ∈ table.regions) {frame : ℕ} (fills : region.Fills frame) :
    t.isUsed frame = false := by
  have below : frame < table.topFrame :=
    (fills.lt_endFrame (fits region member)).trans_le (RegionTable.endFrame_le_topFrame member)
  refine (init.isUsed_eq_false_iff (by omega)).mpr ⟨?_, below⟩
  exact (mem_frames_iff_stepsInto fits).mpr ⟨region, member, fills.stepsInto⟩

/-- A frame of the bitmap that is free is met by some region. -/
theorem Initialized.meets_of_free (init : Initialized table frameBitmap t) {frame : ℕ}
    (within : frame / 8 < t.maxFrameIdx.toNat / 8 + 1) (free : t.isUsed frame = false) :
    ∃ region ∈ table.regions, region.Meets frame := by
  rw [init.maxFrameIdx] at within
  obtain ⟨member, -⟩ := (init.isUsed_eq_false_iff within).mp free
  obtain ⟨region, listed, steps⟩ := (mem_frames_iff_stepsInto fits).mp member
  exact ⟨region, listed, steps.meets⟩

/-- **`pmm_init` neither loses nor invents memory.** For regions that end at or below the last
page it ends, and then every frame that a region fills is free, every free frame of the bitmap
is met by a region, and every frame of the bitmap that no region meets is used. -/
theorem freed_of_pmmInit :
    (∃ fuel t, pmmInit fuel table (.fresh frameBitmap) = some t) ∧
      ∀ fuel t, pmmInit fuel table (.fresh frameBitmap) = some t →
        (∀ region ∈ table.regions, ∀ frame, region.Fills frame → t.isUsed frame = false) ∧
          ∀ frame, frame / 8 < t.maxFrameIdx.toNat / 8 + 1 →
            (t.isUsed frame = false → ∃ region ∈ table.regions, region.Meets frame) ∧
              ((∀ region ∈ table.regions, ¬ region.Meets frame) → t.isUsed frame = true) := by
  refine ⟨exists_pmmInit_of_fits fits _, fun fuel t ended => ?_⟩
  have init := (initialized_of_pmmInit ended).2
  refine ⟨fun region member frame fills => init.free_of_fills fits member fills,
    fun frame within => ⟨init.meets_of_free fits within, fun none => ?_⟩⟩
  by_contra free
  rw [Bool.not_eq_true] at free
  obtain ⟨region, member, meets⟩ := init.meets_of_free fits within free
  exact none region member meets

end Fitting

/-- On the sample table a frame of the region is free, and one below it is used. -/
theorem freed_of_pmmInit_sampleTable :
    ∃ fuel t, pmmInit fuel sampleTable (.fresh fun _ => 0) = some t ∧
      t.isUsed 300 = false ∧ t.isUsed 100 = true := by
  obtain ⟨⟨fuel, t, ended⟩, freed⟩ :=
    @freed_of_pmmInit sampleTable (by decide) fun _ => 0
  obtain ⟨free, used⟩ := freed fuel t ended
  refine ⟨fuel, t, ended, free _ (List.mem_singleton.mpr rfl) 300 ⟨by decide, by decide⟩, ?_⟩
  rw [(initialized_of_pmmInit ended).2.maxFrameIdx] at used
  refine (used 100 (by decide)).2 fun region listed => ?_
  rw [List.mem_singleton.mp listed]
  rintro ⟨addr, ⟨above, -⟩, inside⟩
  change 0x100000 ≤ addr at above
  omega

/-! ## The counter of free frames -/

section Counting

variable {table : RegionTable} {frameBitmap : ℕ → BitVec 8} {t : Pmm}

/-- The clear bits below the top frame are those of the frames stepped into. -/
theorem Initialized.card_free (init : Initialized table frameBitmap t) :
    ((Finset.range t.maxFrameIdx.toNat).filter fun frame => t.isUsed frame = false).card =
      (table.frames.filter fun frame => decide (frame < table.topFrame)).toFinset.card := by
  refine congrArg Finset.card (Finset.ext fun frame => ?_)
  rw [Finset.mem_filter, Finset.mem_range, List.mem_toFinset, List.mem_filter, decide_eq_true_iff,
    init.maxFrameIdx]
  constructor
  · rintro ⟨below, free⟩
    exact (init.isUsed_eq_false_iff (by omega)).mp free
  · rintro ⟨member, below⟩
    exact ⟨below, (init.isUsed_eq_false_iff (by omega)).mpr ⟨member, below⟩⟩

variable (fits : ∀ region ∈ table.regions, region.Fits)
include fits

/-- No frame below the top frame is counted twice exactly when no two regions step into the
same one. -/
theorem nodup_filter_frames_iff :
    (table.frames.filter fun frame => decide (frame < table.topFrame)).Nodup ↔
      table.regions.Pairwise fun region other =>
        ∀ frame < table.topFrame, region.StepsInto frame → ¬ other.StepsInto frame := by
  rw [RegionTable.frames, List.filter_flatMap, List.nodup_flatMap]
  have apart {region other : MemoryRegion} (member : region ∈ table.regions)
      (member' : other ∈ table.regions) :
      Function.onFun List.Disjoint
          (fun region => region.frames.filter fun frame => decide (frame < table.topFrame)) region other ↔
        ∀ frame < table.topFrame, region.StepsInto frame → ¬ other.StepsInto frame := by
    simp only [Function.onFun, List.disjoint_left, List.mem_filter, decide_eq_true_iff,
      (fits region member).mem_frames_iff_stepsInto, (fits other member').mem_frames_iff_stepsInto]
    constructor
    · exact fun separate frame below steps steps' => separate ⟨steps, below⟩ ⟨steps', below⟩
    · exact fun separate frame both both' => separate frame both.2 both.1 both'.1
  constructor
  · rintro ⟨-, pairwise⟩
    exact pairwise.imp_of_mem fun member member' => (apart member member').mp
  · intro pairwise
    refine ⟨fun region _ => ?_, pairwise.imp_of_mem fun member member' => (apart member member').mpr⟩
    exact List.Nodup.filter _ List.nodup_range'

/-- **The counter of free frames is exact when no two regions step into the same frame, and
only then.** For regions that end at or below the last page `pmm_init` ends, and its counter is
the number of clear bits below the maximum frame index exactly under this condition. -/
theorem totalFrames_exact_iff :
    (∃ fuel t, pmmInit fuel table (.fresh frameBitmap) = some t) ∧
      ∀ fuel t, pmmInit fuel table (.fresh frameBitmap) = some t →
        (t.totalFrames.toNat =
            ((Finset.range t.maxFrameIdx.toNat).filter fun frame => t.isUsed frame = false).card ↔
          table.regions.Pairwise fun region other =>
            ∀ frame < table.topFrame, region.StepsInto frame → ¬ other.StepsInto frame) := by
  refine ⟨exists_pmmInit_of_fits fits _, fun fuel t ended => ?_⟩
  have init := (initialized_of_pmmInit ended).2
  rw [init.totalFrames, init.card_free, RegionTable.countBelow, List.countP_eq_length_filter,
    ← nodup_filter_frames_iff fits, eq_comm]
  exact Multiset.toFinset_card_eq_card_iff_nodup

end Counting

/-- Two regions of half a page each, in different frames. -/
def halfPages : RegionTable where
  regions := [{ base := 0x1000, length := 0x800, type := e820TypeAvailable },
    { base := 0x2800, length := 0x800, type := e820TypeAvailable }]
  bounded := by decide

/-- The counter is exact for the two halves in different frames. -/
theorem totalFrames_exact_halfPages :
    ∃ fuel t, pmmInit fuel halfPages (.fresh fun _ => 0) = some t ∧
      t.totalFrames.toNat =
        ((Finset.range t.maxFrameIdx.toNat).filter fun frame => t.isUsed frame = false).card := by
  have fits : ∀ region ∈ halfPages.regions, region.Fits := by decide
  obtain ⟨⟨fuel, t, ended⟩, counts⟩ := @totalFrames_exact_iff halfPages (fun _ => 0) fits
  refine ⟨fuel, t, ended, (counts fuel t ended).mpr ?_⟩
  refine List.pairwise_pair.mpr fun frame _ ⟨_, before⟩ ⟨behind, _⟩ => ?_
  change 4096 * frame + 0 < 0x1800 at before
  change 0x2800 ≤ 4096 * frame + 0x800 at behind
  omega

/-- Two halves of one page, as two regions. -/
def splitPage : RegionTable where
  regions := [{ base := 0x1000, length := 0x800, type := e820TypeAvailable },
    { base := 0x1800, length := 0x800, type := e820TypeAvailable }]
  bounded := by decide

/-- The two halves share no byte, and their one frame is counted twice. -/
theorem totalFrames_splitPage :
    (∀ region ∈ splitPage.regions, region.Fits) ∧
      splitPage.regions.Pairwise
        (fun region other => ∀ addr, region.Contains addr → ¬ other.Contains addr) ∧
      ∃ t, pmmInit (2 ^ 20 + 1) splitPage (.fresh fun _ => 0) = some t ∧
        t.totalFrames.toNat = 2 ∧
        ((Finset.range t.maxFrameIdx.toNat).filter fun frame => t.isUsed frame = false).card = 1 := by
  obtain ⟨t, ended⟩ := exists_pmmInit splitPage (by decide) (.fresh fun _ => 0)
  have init := (initialized_of_pmmInit ended).2
  refine ⟨by decide, ?_, t, ended, ?_, ?_⟩
  · refine List.pairwise_pair.mpr fun addr ⟨_, before⟩ ⟨behind, _⟩ => ?_
    change addr < 0x1800 at before
    change 0x1800 ≤ addr at behind
    omega
  · rw [init.totalFrames]
    decide
  · rw [init.card_free]
    decide

end KernelV.Memory
