import Mathlib.Data.List.Nodup
import KernelV.Memory.HighMemory
import KernelV.Memory.PmmRuns

/-!
# Which memory the allocator hands out

`pmm_alloc_frame` searches the frame indices below the number of usable frames.
The indices are physical frame numbers, so the search reaches every usable frame
only when the usable memory starts at address 0 and has no hole. For page-aligned
disjoint regions this is exact: the allocator reports an exhausted memory only
when it is exhausted if and only if every byte below the end of a region belongs
to a region (`exhausted_iff_noHole`). The argument is a count: a finite set of
numbers has all its elements below its size exactly when it is an initial segment
(`forall_lt_card_iff`).

`pmm_init` steps through a region from its unrounded base, so it also frees the
frames that the region enters without filling them. Whether such a frame is handed
out depends on the other entries of the map. The frames at risk are the entered
ones at or above 1 MiB and below both bounds, and the indices past the bitmap when
regions overlap; memory that is not available is handed out exactly when one of
them is not made of available memory (`handsOut_available_iff`).
-/

set_option autoImplicit false

namespace KernelV.Memory

open Library

/-! ## Regions below the last page -/

namespace MemoryRegion

/-- A byte of the region, by its 64-bit base and length. -/
def Contains (region : MemoryRegion) (addr : ℕ) : Prop :=
  region.base.toNat ≤ addr ∧ addr < region.base.toNat + region.length.toNat

/-- The region ends at or below the last page of the 32-bit address space. -/
def Fits (region : MemoryRegion) : Prop :=
  region.base.toNat + region.length.toNat ≤ 0xFFFFF000

instance (region : MemoryRegion) : Decidable region.Fits := inferInstanceAs (Decidable (_ ≤ _))

/-- The region covers the whole frame. -/
def Fills (region : MemoryRegion) (frame : ℕ) : Prop :=
  region.base.toNat ≤ 4096 * frame ∧ 4096 * frame + 4096 ≤ region.base.toNat + region.length.toNat

variable {region : MemoryRegion}

theorem Fits.toNat_regionBase (fits : region.Fits) :
    region.regionBase.toNat = region.base.toNat := by
  rw [Fits] at fits
  rw [regionBase]
  bv_omega

theorem Fits.toNat_regionEnd (fits : region.Fits) :
    region.regionEnd.toNat = region.base.toNat + region.length.toNat := by
  rw [Fits] at fits
  rw [regionEnd, regionBase, regionLength]
  bv_omega

/-- The loop of such a region ends. -/
theorem Fits.ends (fits : region.Fits) : region.Ends := by
  have limit := fits.toNat_regionEnd
  rw [Fits] at fits
  exact .inr (by omega)

/-- The frames entered from the base on, in pages. -/
theorem Fits.mem_frames (fits : region.Fits) {frame : ℕ} :
    frame ∈ region.frames ↔ region.base.toNat / 4096 ≤ frame ∧
      4096 * frame + region.base.toNat % 4096 < region.base.toNat + region.length.toNat := by
  rw [MemoryRegion.mem_frames, fits.toNat_regionBase, fits.toNat_regionEnd]

/-- A whole number of pages, starting on a page boundary. -/
structure PageAligned (region : MemoryRegion) : Prop where
  base : region.base.toNat % 4096 = 0
  length : region.length.toNat % 4096 = 0
  fits : region.Fits

/-- An aligned region enters the frames it contains. -/
theorem PageAligned.mem_frames (aligned : region.PageAligned) {frame : ℕ} :
    frame ∈ region.frames ↔ region.Contains (4096 * frame) := by
  have base := aligned.base
  rw [aligned.fits.mem_frames, Contains]
  omega

/-- A byte of an aligned region lies in a frame the region enters. -/
theorem PageAligned.contains_iff (aligned : region.PageAligned) {addr : ℕ} :
    region.Contains addr ↔ addr / 4096 ∈ region.frames := by
  have base := aligned.base
  have length := aligned.length
  rw [aligned.mem_frames, Contains, Contains]
  omega

theorem PageAligned.lt_endFrame (aligned : region.PageAligned) {frame : ℕ}
    (member : frame ∈ region.frames) : frame < region.endFrame := by
  have contained := aligned.mem_frames.mp member
  have base := aligned.base
  have length := aligned.length
  rw [Contains] at contained
  rw [endFrame, aligned.fits.toNat_regionEnd]
  omega

end MemoryRegion

/-! ## Aligned and disjoint regions -/

/-- Regions of whole pages that share no byte. -/
structure RegionTable.PageDisjoint (table : RegionTable) : Prop where
  aligned : ∀ region ∈ table.regions, region.PageAligned
  disjoint : table.regions.Pairwise
    fun region other => ∀ addr, region.Contains addr → ¬ other.Contains addr

/-- Every byte below the end of a region that is not empty belongs to a region. -/
def RegionTable.NoHole (table : RegionTable) : Prop :=
  ∀ region ∈ table.regions, region.length ≠ 0 →
    ∀ addr < region.base.toNat + region.length.toNat,
      ∃ other ∈ table.regions, other.Contains addr

namespace RegionTable.PageDisjoint

variable {table : RegionTable} (pages : table.PageDisjoint)
include pages

/-- Every region's loop ends. -/
theorem ends : ∀ region ∈ table.regions, region.Ends :=
  fun region member => (pages.aligned region member).fits.ends

/-- No frame is entered twice. -/
theorem nodup_frames : table.frames.Nodup := by
  rw [RegionTable.frames, List.nodup_flatMap]
  refine ⟨fun region _ => List.nodup_range', ?_⟩
  refine pages.disjoint.imp_of_mem fun {region other} member member' apart => ?_
  rw [Function.onFun, List.disjoint_left]
  intro frame inside inside'
  exact apart _ ((pages.aligned region member).mem_frames.mp inside)
    ((pages.aligned other member').mem_frames.mp inside')

theorem lt_topFrame {frame : ℕ} (member : frame ∈ table.frames) : frame < table.topFrame := by
  obtain ⟨region, listed, inside⟩ := RegionTable.mem_frames.mp member
  exact ((pages.aligned region listed).lt_endFrame inside).trans_le
    (RegionTable.endFrame_le_topFrame listed)

/-- The count of frames is the number of frames entered. -/
theorem countBelow_eq_card : table.countBelow table.topFrame = table.frames.toFinset.card := by
  rw [List.toFinset_card_of_nodup pages.nodup_frames, RegionTable.countBelow, List.countP_eq_length]
  exact fun frame member => decide_eq_true (pages.lt_topFrame member)

/-- There are fewer than `2 ^ 20` frames. -/
theorem card_frames_lt : table.frames.toFinset.card < 2 ^ 20 := by
  have subset : table.frames.toFinset ⊆ Finset.range table.topFrame := fun frame member =>
    Finset.mem_range.mpr (pages.lt_topFrame (List.mem_toFinset.mp member))
  have card := Finset.card_le_card subset
  have top := table.topFrame_lt
  rw [Finset.card_range] at card
  omega

/-- The frames that `pmm_init` marks free are the frames entered. -/
theorem free_iff_mem_frames {frameBitmap : ℕ → BitVec 8} {t : Pmm}
    (init : Initialized table frameBitmap t) {frame : ℕ} :
    frame < t.maxFrameIdx.toNat ∧ t.isUsed frame = false ↔ frame ∈ table.frames := by
  rw [init.maxFrameIdx]
  constructor
  · rintro ⟨below, clear⟩
    exact ((init.isUsed_eq_false_iff (by omega)).mp clear).1
  · intro member
    have below := pages.lt_topFrame member
    exact ⟨below, (init.isUsed_eq_false_iff (by omega)).mpr ⟨member, below⟩⟩

/-- Without a hole the frames entered are an initial segment, and conversely. -/
theorem noHole_iff :
    table.NoHole ↔ ∀ frame ∈ table.frames.toFinset, ∀ other < frame,
      other ∈ table.frames.toFinset := by
  simp only [List.mem_toFinset]
  constructor
  · intro noHole frame member other below
    obtain ⟨region, listed, inside⟩ := RegionTable.mem_frames.mp member
    have contained := (pages.aligned region listed).mem_frames.mp inside
    rw [MemoryRegion.Contains] at contained
    have notEmpty : region.length ≠ 0 := by
      rintro zero
      rw [zero] at contained
      simp only [BitVec.toNat_zero, BitVec.ofNat_eq_ofNat] at contained
      omega
    obtain ⟨found, listed', contains⟩ := noHole region listed notEmpty (4096 * other) (by omega)
    exact RegionTable.mem_frames.mpr
      ⟨found, listed', (pages.aligned found listed').mem_frames.mpr contains⟩
  · intro closed region listed notEmpty addr below
    -- The last page of the region is entered, so the page of `addr` is.
    have aligned := pages.aligned region listed
    have base := aligned.base
    have length := aligned.length
    have positive : region.length.toNat ≠ 0 := fun zero => notEmpty (BitVec.eq_of_toNat_eq zero)
    have last : (region.base.toNat + region.length.toNat) / 4096 - 1 ∈ table.frames := by
      refine RegionTable.mem_frames.mpr ⟨region, listed, aligned.mem_frames.mpr ?_⟩
      rw [MemoryRegion.Contains]
      omega
    have page : addr / 4096 ∈ table.frames := by
      by_cases same : addr / 4096 = (region.base.toNat + region.length.toNat) / 4096 - 1
      · rw [same]
        exact last
      · exact closed _ last _ (by omega)
    obtain ⟨other, listed', inside⟩ := RegionTable.mem_frames.mp page
    exact ⟨other, listed', (pages.aligned other listed').contains_iff.mpr inside⟩

end RegionTable.PageDisjoint

/-- **A finite set of numbers has all its elements below its size exactly when it is
an initial segment.** -/
theorem forall_lt_card_iff {frames : Finset ℕ} :
    (∀ frame ∈ frames, frame < frames.card) ↔
      ∀ frame ∈ frames, ∀ other < frame, other ∈ frames := by
  constructor
  · intro small frame member other below
    have subset : frames ⊆ Finset.range frames.card :=
      fun frame member => Finset.mem_range.mpr (small frame member)
    have equal := Finset.eq_of_subset_of_card_le subset (by rw [Finset.card_range])
    rw [equal, Finset.mem_range]
    exact below.trans (small frame member)
  · intro closed frame member
    have subset : Finset.range (frame + 1) ⊆ frames := by
      intro other below
      rw [Finset.mem_range, Nat.lt_succ_iff] at below
      rcases Nat.eq_or_lt_of_le below with rfl | below
      · exact member
      · exact closed frame member other below
    have card := Finset.card_le_card subset
    rw [Finset.card_range] at card
    exact card

/-! ## Exhaustion -/

/-- Runs do not change the count of frames. -/
theorem Session.Run.totalFrames {image : KernelImage} {s t : Session} (run : Session.Run image s t) :
    t.pmm.totalFrames = s.pmm.totalFrames := by
  induction run with
  | refl => rfl
  | tail _ step ih =>
      rw [← ih]
      cases step with
      | alloc => exact totalFrames_pmmAllocFrame _
      | free addr owned => exact totalFrames_pmmFreeFrame addr _
      | setFrameBitmap start limit => exact (marks_pmmSetFrameBitmap start limit _).totalFrames
      | reserve reserved => exact (marks_pmmReserveMemoryRegion image reserved _).totalFrames

/-- With fewer than `2 ^ 20` frames, the address 0 is returned only for failure. -/
theorem pmmAllocFrame_eq_zero_iff {s : Pmm} (small : s.totalFrames.toNat < 2 ^ 20) :
    (pmmAllocFrame s).1 = 0 ↔ s.nextFrame = none := by
  rcases pmmAllocFrame_cases s with ⟨found, zero, -⟩ | ⟨frame, found, address, -⟩
  · simp [found, zero]
  · obtain ⟨positive, below, -⟩ := Pmm.nextFrame_eq_some_iff.mp found
    have value := toNat_frameAddr (below.trans small)
    simp only [found, address, reduceCtorEq, iff_false]
    intro zero
    rw [zero] at value
    change 0 = frame * 4096 at value
    omega

theorem Session.run_allocRounds (image : KernelImage) (rounds : ℕ) (s : Session) :
    ∃ live, Session.Run image s ⟨allocRounds rounds s.pmm, live⟩ := by
  induction rounds with
  | zero => exact ⟨s.live, .refl⟩
  | succ rounds ih =>
      obtain ⟨live, run⟩ := ih
      rw [allocRounds_succ]
      exact ⟨_, run.tail (.alloc _)⟩

/-- **Page-aligned disjoint regions: the allocator reports exhaustion only when
every usable frame other than frame 0 is used, in every run, if and only if the
regions leave no hole.** -/
theorem exhausted_iff_noHole {image : KernelImage} {table : RegionTable}
    (pages : table.PageDisjoint) {frameBitmap : ℕ → BitVec 8} {fuel : ℕ} {t : Pmm}
    (init : pmmInit fuel table (.fresh frameBitmap) = some t) :
    (∀ s, Session.Run image ⟨t, []⟩ s → (pmmAllocFrame s.pmm).1 = 0 →
        ∀ frame, frame ≠ 0 → frame < t.maxFrameIdx.toNat → t.isUsed frame = false →
          s.pmm.isUsed frame = true) ↔
      table.NoHole := by
  have result := (initialized_of_pmmInit init).2
  have total : t.totalFrames.toNat = table.frames.toFinset.card := by
    rw [result.totalFrames, pages.countBelow_eq_card]
  have small : t.totalFrames.toNat < 2 ^ 20 := total ▸ pages.card_frames_lt
  rw [pages.noHole_iff, ← forall_lt_card_iff, ← total]
  simp only [List.mem_toFinset]
  constructor
  · intro complete frame member
    by_contra above
    obtain ⟨rounds, exhausted, rest⟩ := exists_allocRounds_exhausted t
    obtain ⟨live, run⟩ := Session.run_allocRounds image rounds ⟨t, []⟩
    have zero : (pmmAllocFrame (allocRounds rounds t)).1 = 0 := by
      rw [pmmAllocFrame_eq_zero_iff (by rw [(allocRounds_spec rounds t).2]; exact small)]
      exact exhausted
    have positive : frame ≠ 0 := by
      -- The set of frames is not empty, so the count is not 0.
      have notEmpty := Finset.card_pos.mpr ⟨frame, List.mem_toFinset.mpr member⟩
      omega
    obtain ⟨below, clear⟩ := (pages.free_iff_mem_frames result).mpr member
    have used := complete _ run zero frame positive below clear
    rw [rest frame (by omega) (by omega), clear] at used
    exact absurd used (by decide)
  · intro bounded s run zero frame positive below clear
    have sameTotal := run.totalFrames
    rw [pmmAllocFrame_eq_zero_iff (by rw [sameTotal]; exact small),
      Pmm.nextFrame_eq_none_iff] at zero
    refine zero frame (by omega) ?_
    rw [sameTotal]
    exact bounded frame ((pages.free_iff_mem_frames result).mp ⟨below, clear⟩)

/-- The first four frames of memory. -/
def wholeTable : RegionTable where
  regions := [{ base := 0, length := 0x4000, type := e820TypeAvailable }]
  bounded := by decide

/-- One megabyte from 1 MiB on, after a hole. -/
def holeTable : RegionTable where
  regions := [{ base := 0x100000, length := 0x100000, type := e820TypeAvailable }]
  bounded := by decide

theorem pageDisjoint_wholeTable : wholeTable.PageDisjoint where
  aligned region member := by
    rw [List.mem_singleton.mp member]
    exact ⟨by decide, by decide, by decide⟩
  disjoint := List.pairwise_singleton _ _

/-- Memory from address 0 without a hole is handed out completely. -/
theorem exhausted_wholeTable :
    ∃ t, pmmInit (2 ^ 20 + 1) wholeTable (.fresh fun _ => 0) = some t ∧
      ∀ s, Session.Run sampleImage ⟨t, []⟩ s → (pmmAllocFrame s.pmm).1 = 0 →
        ∀ frame, frame ≠ 0 → frame < t.maxFrameIdx.toNat → t.isUsed frame = false →
          s.pmm.isUsed frame = true := by
  obtain ⟨t, init⟩ := exists_pmmInit wholeTable pageDisjoint_wholeTable.ends (.fresh fun _ => 0)
  refine ⟨t, init, (exhausted_iff_noHole pageDisjoint_wholeTable init).mpr ?_⟩
  intro region member _ addr below
  rw [List.mem_singleton.mp member] at below
  exact ⟨_, List.mem_singleton.mpr rfl, Nat.zero_le _, below⟩

/-- With 256 usable frames from frame 256 on, the search from 1 to 255 finds none of
them: the very first allocation reports an exhausted memory. -/
theorem holeTable_exhausted :
    ∃ t, pmmInit (2 ^ 20 + 1) holeTable (.fresh fun _ => 0) = some t ∧
      (pmmAllocFrame t).1 = 0 ∧ 256 < t.maxFrameIdx.toNat ∧ t.isUsed 256 = false := by
  have pages : holeTable.PageDisjoint := by
    refine ⟨fun region member => ?_, List.pairwise_singleton _ _⟩
    rw [List.mem_singleton.mp member]
    exact ⟨by decide, by decide, by decide⟩
  obtain ⟨t, init⟩ := exists_pmmInit holeTable pages.ends (.fresh fun _ => 0)
  have result := (initialized_of_pmmInit init).2
  have top : holeTable.topFrame = 512 := by decide
  have total : t.totalFrames.toNat = 256 := by
    rw [result.totalFrames, top]
    decide +kernel
  have member : ∀ frame, frame ∈ holeTable.frames ↔ 256 ≤ frame ∧ frame < 512 := by
    intro frame
    have aligned := pages.aligned _ (List.mem_singleton.mpr rfl)
    simp only [RegionTable.mem_frames, holeTable, List.mem_singleton, exists_eq_left,
      aligned.mem_frames, MemoryRegion.Contains]
    change 0x100000 ≤ 4096 * frame ∧ 4096 * frame < 0x200000 ↔ _
    omega
  refine ⟨t, init, ?_, ?_, ?_⟩
  · rw [pmmAllocFrame_eq_zero_iff (by omega), Pmm.nextFrame_eq_none_iff]
    intro frame positive below
    have notMet : frame ∉ holeTable.frames := by
      rw [member]
      omega
    have reached : frame / 8 < 512 / 8 + 1 := by omega
    simp [result.isUsed, notMet, top, reached]
  · rw [result.maxFrameIdx, top]
    decide
  · rw [result.isUsed_eq_false_iff (by rw [top]; decide), member, top]
    decide

/-! ## Available memory -/

/-- A byte inside an available entry of the map. -/
def Available (map : List E820Entry) (addr : ℕ) : Prop :=
  ∃ entry ∈ map, entry.isAvailable = true ∧ entry.toRegion.Contains addr

/-- All bytes of the frame at an address are available. -/
def FrameAvailable (map : List E820Entry) (addr : ℕ) : Prop :=
  ∀ offset < 4096, Available map (addr + offset)

/-- An index at or above 1 MiB and below the count that the search may find free
although no region need cover it: a region enters the frame without filling it, or
the index lies past the bitmap. -/
structure RegionTable.AtRisk (table : RegionTable) (frame : ℕ) : Prop where
  high : 256 ≤ frame
  counted : frame < table.countBelow table.topFrame
  notZero : frame % 2 ^ 20 ≠ 0
  exposed : (frame < table.topFrame ∧
      ∃ region ∈ table.regions, frame ∈ region.frames ∧ ¬ region.Fills frame) ∨
    table.topFrame / 8 + 1 ≤ frame / 8

theorem toNat_frameAddr_mod (frame : ℕ) :
    (BitVec.ofNat 32 frame * pageSize).toNat = frame * 4096 % 2 ^ 32 := by
  simp only [pageSize]
  bv_omega

/-- The address of a frame index past the address space may wrap around to 0. -/
theorem frameAddr_eq_zero_iff {frame : ℕ} :
    BitVec.ofNat 32 frame * pageSize = 0 ↔ frame % 2 ^ 20 = 0 := by
  rw [← BitVec.toNat_inj, toNat_frameAddr_mod]
  change frame * 4096 % 2 ^ 32 = 0 ↔ _
  omega

/-- Every region of the table comes from an available entry of the map. -/
theorem exists_entry_of_mem_regions {map : List E820Entry} {region : MemoryRegion}
    (member : region ∈ (parseAndPrintE820Map map .empty).regions) :
    ∃ entry ∈ map, entry.isAvailable = true ∧ entry.toRegion = region := by
  rw [regions_parseAndPrintE820Map] at member
  obtain ⟨entry, taken, rfl⟩ := List.mem_map.mp member
  obtain ⟨listed, available⟩ := List.mem_filter.mp (List.mem_of_mem_take taken)
  exact ⟨entry, listed, available, rfl⟩

/-- A frame that a region of the table fills is available. -/
theorem frameAvailable_of_fills {map : List E820Entry} {region : MemoryRegion}
    (member : region ∈ (parseAndPrintE820Map map .empty).regions) {frame : ℕ}
    (fills : region.Fills frame) : FrameAvailable map (frame * 4096) := by
  obtain ⟨entry, listed, available, rfl⟩ := exists_entry_of_mem_regions member
  intro offset below
  obtain ⟨lower, upper⟩ := fills
  exact ⟨entry, listed, available, by omega, by omega⟩

section OnlyRam

variable {image : KernelImage} {map : List E820Entry}

/-- On maps below the last page `pmm_init` ends. -/
theorem ends_of_below (below : ∀ entry ∈ map, entry.toRegion.Fits) :
    ∀ region ∈ (parseAndPrintE820Map map .empty).regions, region.Ends := by
  intro region member
  obtain ⟨entry, listed, -, rfl⟩ := exists_entry_of_mem_regions member
  exact (below entry listed).ends

/-- The frames free after boot: at or above 1 MiB, met below the top, or past the
bitmap where the memory happened to be 0. -/
theorem isUsed_boot_eq_false_iff {table : RegionTable} {frameBitmap : ℕ → BitVec 8} {t : Pmm}
    (init : Initialized table frameBitmap t) {frame : ℕ} :
    (bootReservations image t).isUsed frame = false ↔
      256 ≤ frame ∧ ((frame ∈ table.frames ∧ frame < table.topFrame) ∨
        (table.topFrame / 8 + 1 ≤ frame / 8 ∧ getBit frameBitmap frame = false)) := by
  rw [isUsed_bootReservations init.maxFrameIdx_lt, init.isUsed]
  simp only [Bool.or_eq_false_iff, decide_eq_false_iff_not, not_lt, Bool.and_eq_false_iff,
    Bool.not_eq_false_eq_eq_true, decide_eq_true_eq]

/-- A frame at risk is free after boot where the memory past the bitmap was 0. -/
theorem RegionTable.AtRisk.free {table : RegionTable} {t : Pmm}
    (init : Initialized table (fun _ => 0) t) {frame : ℕ} (risk : table.AtRisk frame) :
    (bootReservations image t).isUsed frame = false := by
  refine (isUsed_boot_eq_false_iff init).mpr ⟨risk.high, ?_⟩
  rcases risk.exposed with ⟨small, region, listed, inside, -⟩ | outside
  · exact .inl ⟨RegionTable.mem_frames.mpr ⟨region, listed, inside⟩, small⟩
  · exact .inr ⟨outside, by simp [getBit]⟩

/-- A frame handed out after boot is available, unless it is at risk and is not. -/
theorem frameAvailable_of_nextFrame {frameBitmap : ℕ → BitVec 8} {fuel : ℕ} {t : Pmm}
    (init : initFromMap fuel map frameBitmap = some t)
    (safe : ∀ frame, (parseAndPrintE820Map map .empty).AtRisk frame →
      FrameAvailable map (frame * 4096 % 2 ^ 32))
    {frame : ℕ} (counted : frame < t.totalFrames.toNat) (notZero : frame % 2 ^ 20 ≠ 0)
    (free : (bootReservations image t).isUsed frame = false) :
    FrameAvailable map (frame * 4096 % 2 ^ 32) := by
  have result := (initialized_of_pmmInit init).2
  rw [result.totalFrames] at counted
  obtain ⟨high, met | outside⟩ := (isUsed_boot_eq_false_iff result).mp free
  · obtain ⟨region, listed, inside⟩ := RegionTable.mem_frames.mp met.1
    by_cases fills : region.Fills frame
    · have small := (parseAndPrintE820Map map .empty).topFrame_lt
      have value : frame * 4096 % 2 ^ 32 = frame * 4096 := Nat.mod_eq_of_lt (by omega)
      rw [value]
      exact frameAvailable_of_fills listed fills
    · exact safe frame ⟨high, counted, notZero, .inl ⟨met.2, region, listed, inside, fills⟩⟩
  · exact safe frame ⟨high, counted, notZero, .inr outside.1⟩

/-- **Only available memory is handed out, whatever the memory held before boot, if
and only if every frame at risk is made of available memory.** -/
theorem handsOut_available_iff (below : ∀ entry ∈ map, entry.toRegion.Fits) :
    (∀ frameBitmap fuel t, initFromMap fuel map frameBitmap = some t → ∀ rounds,
        (pmmAllocFrame (allocRounds rounds (bootReservations image t))).1 ≠ 0 →
          FrameAvailable map
            (pmmAllocFrame (allocRounds rounds (bootReservations image t))).1.toNat) ↔
      ∀ frame, (parseAndPrintE820Map map .empty).AtRisk frame →
        FrameAvailable map (frame * 4096 % 2 ^ 32) := by
  constructor
  · intro onlyRam frame risk
    obtain ⟨t, init⟩ := exists_initFromMap map (ends_of_below below) (fun _ => 0)
    have result := (initialized_of_pmmInit init).2
    have counted : frame < (bootReservations image t).totalFrames.toNat := by
      rw [(marks_bootReservations image t).totalFrames, result.totalFrames]
      exact risk.counted
    have positive : 1 ≤ frame := le_trans (by decide) risk.high
    obtain ⟨rounds, found⟩ := exists_allocRounds_nextFrame positive counted (risk.free result)
    have address := (marks_pmmAllocFrame found).1
    have handedOut := onlyRam _ _ t init rounds
    rw [address, toNat_frameAddr_mod] at handedOut
    exact handedOut fun zero => risk.notZero (frameAddr_eq_zero_iff.mp zero)
  · intro safe frameBitmap fuel t init rounds success
    rcases pmmAllocFrame_cases (allocRounds rounds (bootReservations image t)) with
      ⟨-, zero, -⟩ | ⟨frame, found, address, -⟩
    · exact absurd zero success
    · obtain ⟨-, counted, free, -⟩ := Pmm.nextFrame_eq_some_iff.mp found
      rw [address] at success ⊢
      rw [(allocRounds_spec rounds _).2, (marks_bootReservations image t).totalFrames] at counted
      -- Allocations only set bits, so the frame was free at boot.
      have freeAtBoot : (bootReservations image t).isUsed frame = false := by
        by_contra used
        rw [Bool.not_eq_false] at used
        rw [isUsed_allocRounds_of_isUsed rounds used] at free
        exact absurd free (by decide)
      rw [toNat_frameAddr_mod]
      exact frameAvailable_of_nextFrame init safe counted
        (fun zero => success (frameAddr_eq_zero_iff.mpr zero)) freeAtBoot

end OnlyRam

/-- One available entry of whole pages. -/
def alignedMap : List E820Entry :=
  [{ base := 0x100000, length := 0x110000, type := e820TypeAvailable }]

/-- One available entry that starts in the middle of a page. -/
def unalignedMap : List E820Entry :=
  [{ base := 0x100800, length := 0x200000, type := e820TypeAvailable }]

/-- On the aligned map only available memory is handed out. -/
theorem handsOut_available_alignedMap :
    ∃ t, initFromMap (2 ^ 20 + 1) alignedMap (fun _ => 0) = some t ∧ ∀ rounds,
      (pmmAllocFrame (allocRounds rounds (bootReservations sampleImage t))).1 ≠ 0 →
        FrameAvailable alignedMap
          (pmmAllocFrame (allocRounds rounds (bootReservations sampleImage t))).1.toNat := by
  obtain ⟨t, init⟩ := exists_initFromMap alignedMap (ends_of_below (by decide)) (fun _ => 0)
  refine ⟨t, init, (handsOut_available_iff (by decide)).mpr (fun frame risk => ?_) _ _ t init⟩
  have count : (parseAndPrintE820Map alignedMap .empty).countBelow
      (parseAndPrintE820Map alignedMap .empty).topFrame = 272 := by decide +kernel
  have top : (parseAndPrintE820Map alignedMap .empty).topFrame = 528 := by decide
  have counted := risk.counted
  have high := risk.high
  rw [count] at counted
  rcases risk.exposed with ⟨-, region, listed, -, notFilled⟩ | outside
  · have only : region = { base := 0x100000, length := 0x110000, type := e820TypeAvailable } :=
      List.mem_singleton.mp listed
    subst only
    refine absurd ?_ notFilled
    change 0x100000 ≤ 4096 * frame ∧ 4096 * frame + 4096 ≤ 0x210000
    omega
  · omega

/-- On the unaligned map the first frame handed out starts 2 KiB before the available
memory. -/
theorem handsOut_unavailable_unalignedMap :
    ∃ t, initFromMap (2 ^ 20 + 1) unalignedMap (fun _ => 0) = some t ∧
      (pmmAllocFrame (bootReservations sampleImage t)).1 = 0x100000 ∧
      ¬ Available unalignedMap 0x100000 := by
  obtain ⟨t, init⟩ := exists_initFromMap unalignedMap (ends_of_below (by decide)) (fun _ => 0)
  have result := (initialized_of_pmmInit init).2
  have count : (parseAndPrintE820Map unalignedMap .empty).countBelow
      (parseAndPrintE820Map unalignedMap .empty).topFrame = 512 := by decide +kernel
  have top : (parseAndPrintE820Map unalignedMap .empty).topFrame = 768 := by decide
  have packed : Packed 256 (bootReservations sampleImage t) := by
    refine result.packed sampleImage le_rfl (by omega) (fun frame above below => by omega) ?_
    intro frame above below
    refine ⟨RegionTable.mem_frames.mpr ⟨_, List.mem_singleton.mpr rfl, ?_⟩, by omega⟩
    refine MemoryRegion.mem_frames.mpr ⟨above, ?_⟩
    change 4096 * frame + 0x800 < 0x300800
    omega
  have total : (bootReservations sampleImage t).totalFrames.toNat = 512 := by
    rw [(marks_bootReservations sampleImage t).totalFrames, result.totalFrames, count]
  refine ⟨t, init, (marks_pmmAllocFrame (packed.alloc (by omega)).1).1, ?_⟩
  rintro ⟨entry, listed, -, lower, -⟩
  rw [List.mem_singleton.mp listed] at lower
  exact absurd lower (by decide)

end KernelV.Memory
