import KernelV.Memory.PmmOperations

/-!
# What `pmm_init` computes

`pmm_init` sees a region through its base and its length narrowed to 32 bits,
and through their sum modulo `2 ^ 32`. From the base it steps page by page to the
sum, so the frames of a region are consecutive (`MemoryRegion.frames`), and a
frame is met once for every region that steps into it (`RegionTable.frames` is a
list, with repetitions).

* The loop of a region ends exactly when the sum does not lie above the last
  word that leaves the base's remainder modulo the page size
  (`pmmInit_ends_iff`).
* When `pmm_init` ends, the maximum frame index is the highest frame index of a
  region end, a frame is free exactly when it lies below that index and is met,
  and the count of frames counts every meeting (`initialized_of_pmmInit`).
-/

set_option autoImplicit false

namespace KernelV.Memory

open Library

/-! ## The frames of a region -/

namespace MemoryRegion

variable (region : MemoryRegion)

/-- The frame index of the region's end, which bounds the bitmap. -/
def endFrame : ℕ := region.regionEnd.toNat / 4096

/-- The frames the inner loop of `pmm_init` steps through. -/
def frames : List ℕ :=
  List.range' (region.regionBase.toNat / 4096)
    (loopCount 4096 region.regionBase.toNat region.regionEnd.toNat)

/-- The inner loop of `pmm_init` reaches its exit for this region. -/
def Ends : Prop :=
  region.regionEnd ≤ region.regionBase ∨
    region.regionEnd.toNat ≤ 0xFFFFF000 + region.regionBase.toNat % 4096

instance : Decidable region.Ends := inferInstanceAs (Decidable (_ ∨ _))

variable {region}

theorem ends_iff_loopEnds :
    region.Ends ↔
      LoopEnds 32 pageSize.toNat region.regionBase.toNat region.regionEnd.toNat := by
  rw [Ends, LoopEnds, BitVec.le_def, toNat_pageSize]
  omega

/-- A frame is met when the address with the base's offset inside it lies before
the end. -/
theorem mem_frames {frame : ℕ} :
    frame ∈ region.frames ↔ region.regionBase.toNat / 4096 ≤ frame ∧
      4096 * frame + region.regionBase.toNat % 4096 < region.regionEnd.toNat := by
  rw [frames, List.mem_range'_1, and_congr_right_iff]
  intro above
  have count := lt_loopCount_iff (show 0 < 4096 by decide) region.regionBase.toNat
    region.regionEnd.toNat (frame - region.regionBase.toNat / 4096)
  omega

theorem length_frames_le : region.frames.length ≤ 2 ^ 20 := by
  rw [frames, List.length_range', loopCount]
  omega

/-- The frame indices of the addresses visited. -/
theorem map_frameIndex_addresses (ends : region.Ends) :
    (visited pageSize (loopCount pageSize.toNat region.regionBase.toNat region.regionEnd.toNat)
      region.regionBase).map (fun addr => (frameIndex addr).toNat) = region.frames := by
  have fits := (ends_iff_loopEnds.mp ends).fits pageSize_dvd pageSize_pos region.regionBase.isLt
  rw [toNat_pageSize] at fits ⊢
  generalize counted : loopCount 4096 region.regionBase.toNat region.regionEnd.toNat = count at fits ⊢
  have last : region.regionBase.toNat + (count - 1) * 4096 < 2 ^ 32 :=
    lt_of_le_of_lt (Nat.add_le_add_left (Nat.mul_le_mul_right _ (Nat.sub_le _ _)) _) fits
  rw [map_frameIndex_visited last, frames, counted]

end MemoryRegion

namespace RegionTable

variable (table : RegionTable)

/-- The frames met, once for every region that steps into them. -/
def frames : List ℕ := table.regions.flatMap MemoryRegion.frames

/-- The highest frame index of a region end. -/
def topFrame : ℕ := table.regions.foldr (fun region top => max region.endFrame top) 0

/-- How often a frame below `bound` is met. -/
def countBelow (bound : ℕ) : ℕ := table.frames.countP (fun frame => decide (frame < bound))

variable {table}

theorem mem_frames {frame : ℕ} :
    frame ∈ table.frames ↔ ∃ region ∈ table.regions, frame ∈ region.frames := by
  rw [frames, List.mem_flatMap]

theorem length_flatMap_frames_le (regions : List MemoryRegion) :
    (regions.flatMap MemoryRegion.frames).length ≤ regions.length * 2 ^ 20 := by
  induction regions with
  | nil => simp
  | cons region regions ih =>
      have head := region.length_frames_le
      rw [List.flatMap_cons, List.length_append, List.length_cons]
      omega

/-- The count of frames cannot wrap around. -/
theorem countBelow_lt (bound : ℕ) : table.countBelow bound < 2 ^ 32 := by
  have count : table.countBelow bound ≤ table.frames.length := List.countP_le_length
  have length : table.frames.length ≤ table.regions.length * 2 ^ 20 :=
    length_flatMap_frames_le table.regions
  have bounded := table.bounded
  rw [maxMemoryRegions] at bounded
  omega

theorem topFrame_lt : table.topFrame < 2 ^ 20 := by
  rw [topFrame]
  induction table.regions with
  | nil => decide
  | cons region regions ih =>
      have := region.regionEnd.isLt
      rw [List.foldr_cons, MemoryRegion.endFrame]
      omega

end RegionTable

/-! ## Steps that clear bits -/

/-- The step from `s` to `t` clears the bits of `frames` that lie below the
maximum frame index, and counts them one by one. -/
structure Frees (frames : List ℕ) (s t : Pmm) : Prop where
  isUsed : ∀ frame, t.isUsed frame =
    (!decide (frame ∈ frames ∧ frame < s.maxFrameIdx.toNat) && s.isUsed frame)
  totalFrames : t.totalFrames =
    s.totalFrames + BitVec.ofNat 32 (frames.countP fun frame => decide (frame < s.maxFrameIdx.toNat))
  usedFrames : t.usedFrames = s.usedFrames
  maxFrameIdx : t.maxFrameIdx = s.maxFrameIdx
  touched : ∀ byte, byte ∈ t.touched ↔
    byte ∈ s.touched ∨ ∃ frame ∈ frames, frame < s.maxFrameIdx.toNat ∧ byte = frame / 8

namespace Frees

theorem refl (s : Pmm) : Frees [] s s where
  isUsed _ := by simp
  totalFrames := by simp
  usedFrames := rfl
  maxFrameIdx := rfl
  touched _ := by simp

theorem trans {frames more : List ℕ} {s t u : Pmm} (first : Frees frames s t)
    (second : Frees more t u) : Frees (frames ++ more) s u where
  isUsed frame := by
    rw [second.isUsed, first.isUsed, first.maxFrameIdx, ← Bool.and_assoc, ← Bool.not_or]
    simp only [List.mem_append, or_and_right, Bool.decide_or, Bool.or_comm]
  totalFrames := by
    rw [second.totalFrames, first.totalFrames, first.maxFrameIdx, List.countP_append,
      BitVec.ofNat_add, BitVec.add_assoc]
  usedFrames := second.usedFrames.trans first.usedFrames
  maxFrameIdx := second.maxFrameIdx.trans first.maxFrameIdx
  touched byte := by
    rw [second.touched, first.touched, first.maxFrameIdx, or_assoc]
    simp only [List.mem_append, or_and_right, exists_or]

end Frees

theorem frees_freeFrameAt (addr : Word) (s : Pmm) :
    Frees [(frameIndex addr).toNat] s (freeFrameAt addr s) := by
  rw [freeFrameAt]
  split
  · rename_i below
    rw [BitVec.lt_def] at below
    constructor
    · intro frame
      have same : (frame ∈ [(frameIndex addr).toNat] ∧ frame < s.maxFrameIdx.toNat) ↔
          frame = (frameIndex addr).toNat := by
        rw [List.mem_singleton]
        omega
      simp only [same]
      exact s.isUsed_bitmapClear _ frame
    · simp [below]
    · rfl
    · rfl
    · intro byte
      simp [Pmm.bitmapClear, Pmm.touch, below, or_comm]
  · rename_i above
    rw [BitVec.lt_def] at above
    constructor
    · intro frame
      have outside : ¬(frame ∈ [(frameIndex addr).toNat] ∧ frame < s.maxFrameIdx.toNat) := by
        rw [List.mem_singleton]
        omega
      rw [decide_eq_false outside, Bool.not_false, Bool.true_and]
    · simp [above]
    · rfl
    · rfl
    · simp [above]

theorem frees_foldl_freeFrameAt (addrs : List Word) (s : Pmm) :
    Frees (addrs.map fun addr => (frameIndex addr).toNat) s
      (addrs.foldl (fun s addr => freeFrameAt addr s) s) := by
  induction addrs generalizing s with
  | nil => exact .refl s
  | cons addr addrs ih => exact (frees_freeFrameAt addr s).trans (ih (freeFrameAt addr s))

/-- Step 4 for one region, when its loop ends. -/
theorem frees_of_freeRegion {fuel : ℕ} {s t : Pmm} {region : MemoryRegion}
    (ended : freeRegion fuel s region = some t) : region.Ends ∧ Frees region.frames s t := by
  obtain ⟨ends, rfl⟩ := eq_foldl_of_wordLoop pageSize_dvd pageSize_pos ended
  rw [← MemoryRegion.ends_iff_loopEnds] at ends
  refine ⟨ends, ?_⟩
  rw [← MemoryRegion.map_frameIndex_addresses ends]
  exact frees_foldl_freeFrameAt _ _

/-- Step 4 for a list of regions. -/
theorem frees_of_foldlM {fuel : ℕ} {regions : List MemoryRegion} {s t : Pmm}
    (ended : regions.foldlM (freeRegion fuel) s = some t) :
    (∀ region ∈ regions, region.Ends) ∧ Frees (regions.flatMap MemoryRegion.frames) s t := by
  induction regions generalizing s with
  | nil =>
      cases ended
      exact ⟨by simp, .refl _⟩
  | cons region regions ih =>
      rw [List.foldlM_cons] at ended
      obtain ⟨middle, first, rest⟩ := Option.bind_eq_some_iff.mp ended
      obtain ⟨ends, frees⟩ := frees_of_freeRegion first
      obtain ⟨endsRest, freesRest⟩ := ih rest
      refine ⟨?_, frees.trans freesRest⟩
      intro other member
      rcases List.mem_cons.mp member with rfl | member
      · exact ends
      · exact endsRest other member

/-- With the budget of all pages, step 4 ends for regions whose loops end. -/
theorem isSome_foldlM_freeRegion {regions : List MemoryRegion}
    (ends : ∀ region ∈ regions, region.Ends) (s : Pmm) :
    (regions.foldlM (freeRegion (2 ^ 20 + 1)) s).isSome := by
  induction regions generalizing s with
  | nil => rfl
  | cons region regions ih =>
      have loop := MemoryRegion.ends_iff_loopEnds.mp (ends region (by simp))
      have enough : loopCount pageSize.toNat region.regionBase.toNat region.regionEnd.toNat <
          2 ^ 20 + 1 := by
        have := region.length_frames_le
        rw [MemoryRegion.frames, List.length_range'] at this
        rw [toNat_pageSize]
        omega
      rw [List.foldlM_cons, freeRegion,
        wordLoop_eq_foldl pageSize_dvd pageSize_pos loop enough]
      exact ih (fun other member => ends other (List.mem_cons_of_mem _ member)) _

/-! ## The whole of `pmm_init` -/

theorem toNat_maxFrameIdx_foldl (regions : List MemoryRegion) (s : Pmm) :
    (regions.foldl raiseMaxFrameIdx s).maxFrameIdx.toNat =
      max s.maxFrameIdx.toNat (regions.foldr (fun region top => max region.endFrame top) 0) := by
  induction regions generalizing s with
  | nil => simp
  | cons region regions ih =>
      have step : (raiseMaxFrameIdx s region).maxFrameIdx.toNat =
          max s.maxFrameIdx.toNat region.endFrame := by
        rw [raiseMaxFrameIdx, MemoryRegion.endFrame, ← toNat_frameIndex]
        split
        · rename_i above
          rw [gt_iff_lt, BitVec.lt_def] at above
          simp only
          omega
        · rename_i below
          rw [gt_iff_lt, BitVec.lt_def] at below
          omega
      rw [List.foldl_cons, List.foldr_cons, ih, step, max_assoc]

/-- Step 1 only raises the maximum. -/
theorem foldl_raiseMaxFrameIdx_eq (regions : List MemoryRegion) (s : Pmm) :
    regions.foldl raiseMaxFrameIdx s =
      { s with maxFrameIdx := (regions.foldl raiseMaxFrameIdx s).maxFrameIdx } := by
  induction regions generalizing s with
  | nil => rfl
  | cons region regions ih =>
      rw [List.foldl_cons, ih, raiseMaxFrameIdx]
      split <;> rfl

/-- The allocator's state when `pmm_init` ends, on its first call. -/
structure Initialized (table : RegionTable) (frameBitmap : ℕ → BitVec 8) (t : Pmm) : Prop where
  maxFrameIdx : t.maxFrameIdx.toNat = table.topFrame
  totalFrames : t.totalFrames.toNat = table.countBelow table.topFrame
  usedFrames : t.usedFrames = 0
  isUsed : ∀ frame, t.isUsed frame =
    (!decide (frame ∈ table.frames ∧ frame < table.topFrame) &&
      (decide (frame / 8 < table.topFrame / 8 + 1) || getBit frameBitmap frame))
  touched : ∀ byte, byte ∈ t.touched ↔
    ∃ frame ∈ table.frames, frame < table.topFrame ∧ byte = frame / 8

/-- The state from which step 4 starts. -/
def initialBitmap (table : RegionTable) (s : Pmm) : Pmm :=
  fillFrameBitmap (table.regions.foldl raiseMaxFrameIdx { s with totalFrames := 0, usedFrames := 0 })

theorem pmmInit_eq (fuel : ℕ) (table : RegionTable) (s : Pmm) :
    pmmInit fuel table s =
      (table.regions.foldlM (freeRegion fuel) (initialBitmap table s)).map
        (fun s => { s with usedFrames := 0 }) := by
  rw [pmmInit, initialBitmap, Option.map_eq_bind]
  rfl

theorem toNat_bitmapBytes (s : Pmm) :
    (s.maxFrameIdx / 8 + 1).toNat = s.maxFrameIdx.toNat / 8 + 1 := by
  have eighth : (s.maxFrameIdx / 8).toNat = s.maxFrameIdx.toNat / 8 := by
    rw [BitVec.toNat_udiv]
    rfl
  have one : (1 : Word).toNat = 1 := rfl
  rw [BitVec.toNat_add, eighth, one]
  omega

/-- **When `pmm_init` ends, its state is the one described.** -/
theorem initialized_of_pmmInit {fuel : ℕ} {table : RegionTable} {frameBitmap : ℕ → BitVec 8}
    {t : Pmm} (ended : pmmInit fuel table (.fresh frameBitmap) = some t) :
    (∀ region ∈ table.regions, region.Ends) ∧ Initialized table frameBitmap t := by
  rw [pmmInit_eq] at ended
  obtain ⟨last, loops, rfl⟩ := Option.map_eq_some_iff.mp ended
  obtain ⟨ends, frees⟩ := frees_of_foldlM loops
  have top : (initialBitmap table (.fresh frameBitmap)).maxFrameIdx.toNat = table.topFrame := by
    have raised := toNat_maxFrameIdx_foldl table.regions
      { Pmm.fresh frameBitmap with totalFrames := 0, usedFrames := 0 }
    simpa [Pmm.fresh, RegionTable.topFrame, initialBitmap, fillFrameBitmap] using raised
  have start : initialBitmap table (.fresh frameBitmap) =
      { Pmm.fresh (fillCells frameBitmap 0xFF (table.topFrame / 8 + 1)) with
        maxFrameIdx := (initialBitmap table (.fresh frameBitmap)).maxFrameIdx } := by
    have bytes := toNat_bitmapBytes (initialBitmap table (.fresh frameBitmap))
    rw [top] at bytes
    rw [← bytes]
    conv_lhs => rw [initialBitmap, fillFrameBitmap, foldl_raiseMaxFrameIdx_eq]
    rfl
  refine ⟨ends, ?_, ?_, rfl, ?_, ?_⟩
  · change last.maxFrameIdx.toNat = _
    rw [frees.maxFrameIdx, top]
  · change last.totalFrames.toNat = _
    have count := table.countBelow_lt table.topFrame
    have zero : (initialBitmap table (.fresh frameBitmap)).totalFrames = 0 := by
      rw [start]
      rfl
    rw [frees.totalFrames, zero, top, ← RegionTable.frames, ← RegionTable.countBelow]
    simpa using count
  · intro frame
    change last.isUsed frame = _
    have before : (initialBitmap table (.fresh frameBitmap)).isUsed frame =
        (decide (frame / 8 < table.topFrame / 8 + 1) || getBit frameBitmap frame) := by
      rw [start]
      exact getBit_fillCells_allOnes (by decide) frameBitmap _ frame
    rw [frees.isUsed, top, before, ← RegionTable.frames]
  · intro byte
    change byte ∈ last.touched ↔ _
    have none : (initialBitmap table (.fresh frameBitmap)).touched = [] := by
      rw [start]
      rfl
    rw [frees.touched, top, none, ← RegionTable.frames]
    simp

/-- A state exists when every region's loop ends. -/
theorem exists_pmmInit (table : RegionTable) (ends : ∀ region ∈ table.regions, region.Ends)
    (s : Pmm) : ∃ t, pmmInit (2 ^ 20 + 1) table s = some t := by
  obtain ⟨last, loops⟩ := Option.isSome_iff_exists.mp
    (isSome_foldlM_freeRegion ends (initialBitmap table s))
  rw [pmmInit_eq, loops]
  exact ⟨_, rfl⟩

/-- **`pmm_init` ends exactly when the loop of every region reaches its exit**: the
region is empty or wraps around, or its end does not lie above the last word with
the base's offset inside a page. -/
theorem pmmInit_ends_iff (table : RegionTable) (s : Pmm) :
    (∃ fuel t, pmmInit fuel table s = some t) ↔
      ∀ region ∈ table.regions, region.regionEnd ≤ region.regionBase ∨
        region.regionEnd.toNat ≤ 0xFFFFF000 + region.regionBase.toNat % 4096 := by
  constructor
  · rintro ⟨fuel, t, ended⟩
    rw [pmmInit_eq] at ended
    obtain ⟨last, loops, -⟩ := Option.map_eq_some_iff.mp ended
    exact (frees_of_foldlM loops).1
  · intro ends
    obtain ⟨t, ended⟩ := exists_pmmInit table ends s
    exact ⟨_, t, ended⟩

/-- A table with one available region from 1 MiB into the last page. -/
def lastPageTable : RegionTable where
  regions := [{ base := 0x100000, length := 0xFFEFF800, type := e820TypeAvailable }]
  bounded := by decide

/-- The address steps over the end `0xFFFFF800`, wraps around to 0 and goes on. -/
theorem pmmInit_lastPageTable_diverges :
    ¬ ∃ fuel t, pmmInit fuel lastPageTable (.fresh fun _ => 0) = some t := by
  rintro ⟨fuel, t, ended⟩
  have ends := (initialized_of_pmmInit ended).1 _ (List.mem_singleton.mpr rfl)
  exact absurd ends (by decide)

namespace Initialized

variable {table : RegionTable} {frameBitmap : ℕ → BitVec 8} {t : Pmm}

/-- A frame below the top is free exactly when it is met. -/
theorem isUsed_eq_false_iff (init : Initialized table frameBitmap t) {frame : ℕ}
    (below : frame / 8 < table.topFrame / 8 + 1) :
    t.isUsed frame = false ↔ frame ∈ table.frames ∧ frame < table.topFrame := by
  rw [init.isUsed]
  simp [below]

end Initialized

end KernelV.Memory
