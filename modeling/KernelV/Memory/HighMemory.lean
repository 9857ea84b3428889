import KernelV.Memory.PmmInit

/-!
# Memory above 4 GiB

The region table keeps 64-bit bases and lengths; `pmm_init` reads their low 32
bits. An available entry at or above 4 GiB is therefore not ignored: it is taken
for the memory its low bits name.

Two runs are compared, one on a memory map and one on the map without those
entries. They agree exactly when every such entry, read through its low bits,
ends at or below the highest frame of the other entries and steps through no
frame below it (`initFromMap_withoutHigh_iff`). The two passes of `pmm_init` give
the two conditions: the first pass compares ends, the second counts steps.
-/

set_option autoImplicit false

namespace KernelV.Memory

/-- `parse_and_print_e820_map` followed by `pmm_init`, at load time. -/
def initFromMap (fuel : ℕ) (map : List E820Entry) (frameBitmap : ℕ → BitVec 8) : Option Pmm :=
  pmmInit fuel (parseAndPrintE820Map map .empty) (.fresh frameBitmap)

namespace E820Entry

/-- An available entry whose base is at or above 4 GiB. -/
def isHigh (entry : E820Entry) : Bool := entry.isAvailable && decide (2 ^ 32 ≤ entry.base.toNat)

end E820Entry

/-- The map without the available entries at or above 4 GiB. -/
def withoutHigh (map : List E820Entry) : List E820Entry :=
  map.filter fun entry => !entry.isHigh

/-! ## The highest frame and the count of a table -/

namespace RegionTable

variable {table : RegionTable}

theorem topFrame_le_iff {bound : ℕ} :
    table.topFrame ≤ bound ↔ ∀ region ∈ table.regions, region.endFrame ≤ bound := by
  rw [topFrame]
  induction table.regions with
  | nil => simp
  | cons region regions ih => simp [ih]

theorem endFrame_le_topFrame {region : MemoryRegion} (member : region ∈ table.regions) :
    region.endFrame ≤ table.topFrame :=
  topFrame_le_iff.mp le_rfl region member

/-- A table met nowhere below a bound counts nothing. -/
theorem countP_flatMap_eq_zero_iff {regions : List MemoryRegion} {bound : ℕ} :
    (regions.flatMap MemoryRegion.frames).countP (fun frame => decide (frame < bound)) = 0 ↔
      ∀ region ∈ regions, ∀ frame ∈ region.frames, bound ≤ frame := by
  simp only [List.countP_eq_zero, List.mem_flatMap, decide_eq_true_eq, not_lt]
  constructor
  · exact fun all region member frame inside => all frame ⟨region, member, inside⟩
  · rintro all frame ⟨region, member, inside⟩
    exact all region member frame inside

end RegionTable

/-- A region steps through no frame below a bound when it has no steps, or when
its first frame is not below the bound. -/
theorem MemoryRegion.forall_frames_ge_iff {region : MemoryRegion} {bound : ℕ} :
    (∀ frame ∈ region.frames, bound ≤ frame) ↔
      region.regionEnd ≤ region.regionBase ∨ bound ≤ region.regionBase.toNat / 4096 := by
  rw [BitVec.le_def]
  constructor
  · intro all
    by_cases empty : region.regionEnd.toNat ≤ region.regionBase.toNat
    · exact .inl empty
    · refine .inr (all _ (MemoryRegion.mem_frames.mpr ⟨le_rfl, ?_⟩))
      omega
  · rintro (empty | above) frame inside
    · have := MemoryRegion.mem_frames.mp inside
      omega
    · exact above.trans (MemoryRegion.mem_frames.mp inside).1

/-! ## Comparing the two runs -/

section Compare

variable {map : List E820Entry}

theorem regions_parse_of_few (few : (map.filter E820Entry.isAvailable).length ≤ maxMemoryRegions) :
    (parseAndPrintE820Map map .empty).regions =
      (map.filter E820Entry.isAvailable).map E820Entry.toRegion := by
  rw [regions_parseAndPrintE820Map, List.take_of_length_le few]

/-- The available entries of the map split into those kept and the high ones. -/
theorem filter_withoutHigh (map : List E820Entry) :
    (withoutHigh map).filter E820Entry.isAvailable =
      (map.filter E820Entry.isAvailable).filter fun entry => !entry.isHigh := by
  rw [withoutHigh, List.filter_filter, List.filter_filter]
  exact List.filter_congr fun entry _ => Bool.and_comm _ _

theorem length_filter_withoutHigh_le :
    ((withoutHigh map).filter E820Entry.isAvailable).length ≤
      (map.filter E820Entry.isAvailable).length := by
  rw [filter_withoutHigh]
  exact List.length_filter_le _ _

variable (few : (map.filter E820Entry.isAvailable).length ≤ maxMemoryRegions)
include few

/-- The regions of the map are those of the smaller map and the high ones. -/
theorem regions_parse_perm :
    (parseAndPrintE820Map map .empty).regions.Perm
      ((parseAndPrintE820Map (withoutHigh map) .empty).regions ++
        (map.filter E820Entry.isHigh).map E820Entry.toRegion) := by
  have high : map.filter E820Entry.isHigh =
      (map.filter E820Entry.isAvailable).filter fun entry => !!entry.isHigh := by
    rw [List.filter_filter]
    refine List.filter_congr fun entry _ => ?_
    cases available : entry.isAvailable <;> simp [E820Entry.isHigh, available]
  rw [regions_parse_of_few few, regions_parse_of_few (length_filter_withoutHigh_le.trans few),
    filter_withoutHigh, high, ← List.map_append]
  exact (List.filter_append_perm _ _).symm.map _

/-- The highest frame is unchanged when no high entry ends above it. -/
theorem topFrame_parse_eq_iff :
    (parseAndPrintE820Map map .empty).topFrame =
        (parseAndPrintE820Map (withoutHigh map) .empty).topFrame ↔
      ∀ entry ∈ map, entry.isHigh → entry.toRegion.endFrame ≤
        (parseAndPrintE820Map (withoutHigh map) .empty).topFrame := by
  have members : ∀ region, region ∈ (parseAndPrintE820Map map .empty).regions ↔
      region ∈ (parseAndPrintE820Map (withoutHigh map) .empty).regions ∨
        ∃ entry ∈ map, entry.isHigh ∧ entry.toRegion = region := by
    intro region
    rw [(regions_parse_perm few).mem_iff, List.mem_append, List.mem_map]
    simp only [List.mem_filter, and_assoc]
  constructor
  · intro same entry member high
    rw [← same]
    exact RegionTable.endFrame_le_topFrame ((members _).mpr (.inr ⟨entry, member, high, rfl⟩))
  · intro below
    refine le_antisymm (RegionTable.topFrame_le_iff.mpr fun region inside => ?_)
      (RegionTable.topFrame_le_iff.mpr fun region inside => ?_)
    · rcases (members region).mp inside with inside | ⟨entry, member, high, rfl⟩
      · exact RegionTable.endFrame_le_topFrame inside
      · exact below entry member high
    · exact RegionTable.endFrame_le_topFrame ((members region).mpr (.inl inside))

/-- The steps below a bound are those of the smaller map and those of the high
entries. -/
theorem countBelow_parse_eq (bound : ℕ) :
    (parseAndPrintE820Map map .empty).countBelow bound =
      (parseAndPrintE820Map (withoutHigh map) .empty).countBelow bound +
        (((map.filter E820Entry.isHigh).map E820Entry.toRegion).flatMap
          MemoryRegion.frames).countP (fun frame => decide (frame < bound)) := by
  have steps := ((regions_parse_perm few).flatMap_right MemoryRegion.frames).countP_eq
    (fun frame => decide (frame < bound))
  rwa [List.flatMap_append, List.countP_append] at steps

theorem countBelow_parse_eq_iff (bound : ℕ) :
    (parseAndPrintE820Map map .empty).countBelow bound =
        (parseAndPrintE820Map (withoutHigh map) .empty).countBelow bound ↔
      ∀ entry ∈ map, entry.isHigh → entry.toRegion.regionEnd ≤ entry.toRegion.regionBase ∨
        bound ≤ entry.toRegion.regionBase.toNat / 4096 := by
  rw [countBelow_parse_eq few, Nat.add_eq_left, RegionTable.countP_flatMap_eq_zero_iff]
  simp only [List.mem_map, List.mem_filter, MemoryRegion.forall_frames_ge_iff]
  constructor
  · exact fun all entry member high => all _ ⟨entry, ⟨member, high⟩, rfl⟩
  · rintro all region ⟨entry, ⟨member, high⟩, rfl⟩
    exact all entry member high

/-- Without steps of the high entries below the bound, the same frames are met
below it. -/
theorem mem_frames_parse_iff {bound frame : ℕ} (below : frame < bound)
    (noSteps : ∀ entry ∈ map, entry.isHigh → entry.toRegion.regionEnd ≤ entry.toRegion.regionBase ∨
      bound ≤ entry.toRegion.regionBase.toNat / 4096) :
    frame ∈ (parseAndPrintE820Map map .empty).frames ↔
      frame ∈ (parseAndPrintE820Map (withoutHigh map) .empty).frames := by
  rw [RegionTable.frames, RegionTable.frames,
    ((regions_parse_perm few).flatMap_right MemoryRegion.frames).mem_iff, List.flatMap_append,
    List.mem_append, or_iff_left]
  intro inside
  obtain ⟨region, listed, inside⟩ := List.mem_flatMap.mp inside
  obtain ⟨entry, filtered, rfl⟩ := List.mem_map.mp listed
  obtain ⟨member, high⟩ := List.mem_filter.mp filtered
  have above := MemoryRegion.forall_frames_ge_iff.mpr (noSteps entry member high) frame inside
  omega

/-- **Memory above 4 GiB leaves `pmm_init` alone exactly when every available
entry there, read through its low 32 bits, ends at or below the highest frame of
the other entries and steps through no frame below it.** -/
theorem initFromMap_withoutHigh_iff {fuel fuel' : ℕ} {frameBitmap : ℕ → BitVec 8} {t t' : Pmm}
    (full : initFromMap fuel map frameBitmap = some t)
    (low : initFromMap fuel' (withoutHigh map) frameBitmap = some t') :
    ((∀ frame, t.isUsed frame = t'.isUsed frame) ∧ t.totalFrames = t'.totalFrames ∧
        t.maxFrameIdx = t'.maxFrameIdx) ↔
      ∀ entry ∈ map, entry.isHigh →
        entry.toRegion.endFrame ≤ (parseAndPrintE820Map (withoutHigh map) .empty).topFrame ∧
          (entry.toRegion.regionEnd ≤ entry.toRegion.regionBase ∨
            (parseAndPrintE820Map (withoutHigh map) .empty).topFrame ≤
              entry.toRegion.regionBase.toNat / 4096) := by
  have initFull := (initialized_of_pmmInit full).2
  have initLow := (initialized_of_pmmInit low).2
  constructor
  · rintro ⟨-, sameTotal, sameMax⟩ entry member high
    have sameTop : (parseAndPrintE820Map map .empty).topFrame =
        (parseAndPrintE820Map (withoutHigh map) .empty).topFrame := by
      rw [← initFull.maxFrameIdx, ← initLow.maxFrameIdx, sameMax]
    have sameCount := congrArg BitVec.toNat sameTotal
    rw [initFull.totalFrames, initLow.totalFrames, sameTop, countBelow_parse_eq_iff few] at sameCount
    exact ⟨(topFrame_parse_eq_iff few).mp sameTop entry member high,
      sameCount entry member high⟩
  · intro conditions
    have sameTop := (topFrame_parse_eq_iff few).mpr fun entry member high =>
      (conditions entry member high).1
    have noSteps : ∀ entry ∈ map, entry.isHigh →
        entry.toRegion.regionEnd ≤ entry.toRegion.regionBase ∨
          (parseAndPrintE820Map (withoutHigh map) .empty).topFrame ≤
            entry.toRegion.regionBase.toNat / 4096 :=
      fun entry member high => (conditions entry member high).2
    refine ⟨fun frame => ?_, BitVec.eq_of_toNat_eq ?_, BitVec.eq_of_toNat_eq ?_⟩
    · rw [initFull.isUsed, initLow.isUsed, sameTop]
      have sameMeet : (frame ∈ (parseAndPrintE820Map map .empty).frames ∧
            frame < (parseAndPrintE820Map (withoutHigh map) .empty).topFrame) ↔
          (frame ∈ (parseAndPrintE820Map (withoutHigh map) .empty).frames ∧
            frame < (parseAndPrintE820Map (withoutHigh map) .empty).topFrame) :=
        and_congr_left fun below => mem_frames_parse_iff few below noSteps
      simp only [sameMeet]
    · rw [initFull.totalFrames, initLow.totalFrames, sameTop]
      exact (countBelow_parse_eq_iff few _).mpr noSteps
    · rw [initFull.maxFrameIdx, initLow.maxFrameIdx, sameTop]

end Compare

/-! ## A map with memory above 4 GiB -/

/-- 639 KiB of low memory, and 1 MiB at 4 GiB. -/
def aliasedMap : List E820Entry :=
  [{ base := 0, length := 0x9FC00, type := e820TypeAvailable },
    { base := 0x100000000, length := 0x100000, type := e820TypeAvailable }]

/-- 639 KiB of low memory, and the 4 GiB from 4 GiB on: its length is 0 in 32
bits. -/
def harmlessMap : List E820Entry :=
  [{ base := 0, length := 0x9FC00, type := e820TypeAvailable },
    { base := 0x100000000, length := 0x100000000, type := e820TypeAvailable }]

/-- The two runs end on a map whose regions all end. -/
theorem exists_initFromMap (map : List E820Entry)
    (ends : ∀ region ∈ (parseAndPrintE820Map map .empty).regions, region.Ends)
    (frameBitmap : ℕ → BitVec 8) : ∃ t, initFromMap (2 ^ 20 + 1) map frameBitmap = some t :=
  exists_pmmInit _ ends _

/-- The memory at 4 GiB is taken for the first megabyte: the highest frame rises
from 159 to 256. -/
theorem initFromMap_aliasedMap_differs :
    ∃ t t', initFromMap (2 ^ 20 + 1) aliasedMap (fun _ => 0) = some t ∧
      initFromMap (2 ^ 20 + 1) (withoutHigh aliasedMap) (fun _ => 0) = some t' ∧
      t.maxFrameIdx.toNat = 256 ∧ t'.maxFrameIdx.toNat = 159 := by
  obtain ⟨t, full⟩ := exists_initFromMap aliasedMap (by decide) (fun _ => 0)
  obtain ⟨t', low⟩ := exists_initFromMap (withoutHigh aliasedMap) (by decide) (fun _ => 0)
  refine ⟨t, t', full, low, ?_, ?_⟩
  · rw [(initialized_of_pmmInit full).2.maxFrameIdx]
    decide
  · rw [(initialized_of_pmmInit low).2.maxFrameIdx]
    decide

theorem initFromMap_harmlessMap_agrees :
    ∃ t t', initFromMap (2 ^ 20 + 1) harmlessMap (fun _ => 0) = some t ∧
      initFromMap (2 ^ 20 + 1) (withoutHigh harmlessMap) (fun _ => 0) = some t' ∧
      t.totalFrames = t'.totalFrames := by
  obtain ⟨t, full⟩ := exists_initFromMap harmlessMap (by decide) (fun _ => 0)
  obtain ⟨t', low⟩ := exists_initFromMap (withoutHigh harmlessMap) (by decide) (fun _ => 0)
  have agree := (initFromMap_withoutHigh_iff (by decide) full low).mpr (by decide)
  exact ⟨t, t', full, low, agree.2.1⟩

end KernelV.Memory
