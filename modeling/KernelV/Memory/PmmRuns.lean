import Mathlib.Logic.Relation
import KernelV.Memory.PmmInit

/-!
# Runs of the frame allocator

A session is a state of the allocator together with the addresses that have been
handed out and not freed since. A client allocates, frees what it owns, and
reserves ranges, in any order and any number of times.

The invariant of sessions (`Session.Safe`) says that every frame below 1 MiB is
used, that every live address is a page-aligned address at or above 1 MiB whose
frame is used, and that no address is live twice. Each operation preserves it
(`Session.Step.safe`), hence so does every run. Since a frame that is handed out
had its bit clear, it is none of the live frames and none of the reserved ones
(`pmmAllocFrame_safe`).

The second part is about the accesses to the bitmap, for runs in which
`pmm_free_frame` is called with any address. The bitmap has as many bytes as the
highest frame needs. Allocation is bounded by a count of frames and the
reservation of the first megabyte by nothing, so the accesses stay inside exactly
when the highest frame and the count of the region table permit it
(`touched_lt_iff`).
-/

set_option autoImplicit false

namespace KernelV.Memory

open Library

/-! ## The reservations at boot -/

section Boot

variable {image : KernelImage} {maxFrameIdx : Word}

/-- Boot reserves the first megabyte. -/
theorem mem_bootFrames_of_lt {frame : ℕ} (low : frame < 256) :
    frame ∈ bootFrames image maxFrameIdx := by
  refine List.mem_append_left _ (List.mem_append_left _ (mem_framesBetween.mpr ?_))
  exact ⟨Nat.zero_le _, low⟩

/-- The kernel image and the bitmap lie inside the first megabyte. -/
theorem lt_of_mem_bootFrames (small : maxFrameIdx.toNat < 2 ^ 20) {frame : ℕ}
    (member : frame ∈ bootFrames image maxFrameIdx) : frame < 256 := by
  rcases List.mem_append.mp member with member | member
  · rcases List.mem_append.mp member with member | member
    · exact (mem_framesBetween.mp member).2
    · have below := (mem_framesBetween.mp member).2
      have bound := image.end_le
      rw [BitVec.le_def, show pageDirStartAddr.toNat = 0x80000 from rfl] at bound
      omega
  · have below := (mem_framesBetween.mp member).2
    have bytes : (frameBitmapAddr + (maxFrameIdx / 8 + 1)).toNat ≤ 0xB0000 := by
      have eighth : (maxFrameIdx / 8).toNat = maxFrameIdx.toNat / 8 := by
        rw [BitVec.toNat_udiv]
        rfl
      have base : frameBitmapAddr.toNat = 0x90000 := rfl
      have one : (1 : Word).toNat = 1 := rfl
      rw [BitVec.toNat_add, BitVec.toNat_add, eighth, base, one]
      omega
    omega

/-- **After boot the first megabyte is used and the rest is as before.** -/
theorem isUsed_bootReservations {s : Pmm} (small : s.maxFrameIdx.toNat < 2 ^ 20) (frame : ℕ) :
    (bootReservations image s).isUsed frame = (decide (frame < 256) || s.isUsed frame) := by
  rw [(marks_bootReservations image s).isUsed]
  congr 2
  exact propext ⟨lt_of_mem_bootFrames small, mem_bootFrames_of_lt⟩

end Boot

theorem Initialized.maxFrameIdx_lt {table : RegionTable} {frameBitmap : ℕ → BitVec 8} {t : Pmm}
    (init : Initialized table frameBitmap t) : t.maxFrameIdx.toNat < 2 ^ 20 := by
  rw [init.maxFrameIdx]
  exact table.topFrame_lt

/-! ## Repeated allocation -/

/-- The state after a number of allocations. -/
def allocRounds (rounds : ℕ) (s : Pmm) : Pmm := (fun s => (pmmAllocFrame s).2)^[rounds] s

theorem allocRounds_succ (rounds : ℕ) (s : Pmm) :
    allocRounds (rounds + 1) s = (pmmAllocFrame (allocRounds rounds s)).2 :=
  Function.iterate_succ_apply' _ _ _

theorem isUsed_pmmAllocFrame (s : Pmm) :
    (pmmAllocFrame s).2.isUsed = fitStep (s.totalFrames.toNat - 1) 1 s.isUsed := by
  funext frame
  rcases pmmAllocFrame_cases s with ⟨found, -, marks⟩ | ⟨next, found, -, marks⟩
  · rw [marks.isUsed, fitStep]
    rw [Pmm.nextFrame] at found
    simp [found]
  · rw [marks.isUsed, fitStep]
    rw [Pmm.nextFrame] at found
    simp [found, mark]

theorem totalFrames_pmmAllocFrame (s : Pmm) : (pmmAllocFrame s).2.totalFrames = s.totalFrames := by
  obtain ⟨frames, accessed, marks⟩ := exists_marks_pmmAllocFrame s
  exact marks.totalFrames

theorem allocRounds_spec (rounds : ℕ) (s : Pmm) :
    (allocRounds rounds s).isUsed = (fitStep (s.totalFrames.toNat - 1) 1)^[rounds] s.isUsed ∧
      (allocRounds rounds s).totalFrames = s.totalFrames := by
  induction rounds with
  | zero => exact ⟨rfl, rfl⟩
  | succ rounds ih =>
      rw [allocRounds_succ, isUsed_pmmAllocFrame, totalFrames_pmmAllocFrame, ih.2, ih.1,
        Function.iterate_succ_apply']
      exact ⟨rfl, rfl⟩

/-- Allocations only set bits. -/
theorem isUsed_allocRounds_of_isUsed (rounds : ℕ) {s : Pmm} {frame : ℕ}
    (used : s.isUsed frame = true) : (allocRounds rounds s).isUsed frame = true := by
  induction rounds with
  | zero => exact used
  | succ rounds ih =>
      rw [allocRounds_succ]
      obtain ⟨frames, accessed, marks⟩ := exists_marks_pmmAllocFrame (allocRounds rounds s)
      exact marks.mono ih

/-- A free frame below the count is handed out after some allocations. -/
theorem exists_allocRounds_nextFrame {s : Pmm} {frame : ℕ} (positive : 1 ≤ frame)
    (below : frame < s.totalFrames.toNat) (free : s.isUsed frame = false) :
    ∃ rounds, (allocRounds rounds s).nextFrame = some frame := by
  have inWindow : frame < 1 + (s.totalFrames.toNat - 1) := by omega
  obtain ⟨rounds, found⟩ := exists_iterate_firstFit_eq positive inWindow free
  refine ⟨rounds, ?_⟩
  rw [Pmm.nextFrame, (allocRounds_spec rounds s).1, (allocRounds_spec rounds s).2]
  exact found

/-- Allocation fails after some rounds, with nothing changed at or above the
count. -/
theorem exists_allocRounds_exhausted (s : Pmm) :
    ∃ rounds, (allocRounds rounds s).nextFrame = none ∧
      ∀ frame, 1 ≤ frame → s.totalFrames.toNat ≤ frame →
        (allocRounds rounds s).isUsed frame = s.isUsed frame := by
  obtain ⟨rounds, found, rest⟩ :=
    exists_iterate_firstFit_eq_none s.isUsed (s.totalFrames.toNat - 1) 1
  refine ⟨rounds, ?_, fun frame positive above => ?_⟩
  · rw [Pmm.nextFrame, (allocRounds_spec rounds s).1, (allocRounds_spec rounds s).2]
    exact found
  · rw [(allocRounds_spec rounds s).1]
    exact rest frame (.inr (by omega))

/-- Every frame from 1 up to the count is looked at by some allocation. -/
theorem exists_allocRounds_touched {s : Pmm} {frame : ℕ} (positive : 1 ≤ frame)
    (counted : frame < s.totalFrames.toNat) :
    ∃ rounds, frame / 8 ∈ (allocRounds rounds s).touched := by
  obtain ⟨rounds, exhausted, -⟩ := exists_allocRounds_exhausted s
  -- The search that fails has been everywhere.
  have marks := (marks_pmmAllocFrame_none exhausted).2
  refine ⟨rounds + 1, ?_⟩
  rw [allocRounds_succ]
  refine (marks.touched _).mpr (.inr ⟨frame, ?_, rfl⟩)
  rw [List.mem_range'_1, (allocRounds_spec rounds s).2]
  omega

/-- Every frame from 1 on is used up to `next`, and free from there up to the
count. -/
structure Packed (next : ℕ) (s : Pmm) : Prop where
  positive : 1 ≤ next
  used : ∀ frame, 1 ≤ frame → frame < next → s.isUsed frame = true
  free : ∀ frame, next ≤ frame → frame < s.totalFrames.toNat → s.isUsed frame = false

/-- A packed allocator hands out consecutive frames. -/
theorem Packed.alloc {next : ℕ} {s : Pmm} (packed : Packed next s)
    (below : next < s.totalFrames.toNat) :
    s.nextFrame = some next ∧ Packed (next + 1) (pmmAllocFrame s).2 := by
  have found : s.nextFrame = some next :=
    Pmm.nextFrame_eq_some_iff.mpr ⟨packed.positive, below, packed.free next le_rfl below, packed.used⟩
  have marks := (marks_pmmAllocFrame found).2
  refine ⟨found, by omega, fun frame positive bound => ?_, fun frame above bound => ?_⟩
  · by_cases same : frame = next
    · exact marks.isUsed_of_mem (by simp [same])
    · exact marks.mono (packed.used frame positive (by omega))
  · rw [marks.totalFrames] at bound
    have different : frame ≠ next := by omega
    rw [marks.isUsed, packed.free frame (by omega) bound]
    simp [different]

/-! ## Sessions -/

/-- The allocator and the addresses handed out and not freed since. -/
structure Session where
  pmm : Pmm
  live : List Word

namespace Session

/-- The client's record after an allocation: the address 0 stands for failure. -/
def record (addr : Word) (live : List Word) : List Word := if addr = 0 then live else addr :: live

/-- One call of the allocator's interface by a client that frees only what it
owns. -/
inductive Step (image : KernelImage) : Session → Session → Prop where
  | alloc (s : Session) :
      Step image s ⟨(pmmAllocFrame s.pmm).2, record (pmmAllocFrame s.pmm).1 s.live⟩
  | free (s : Session) (addr : Word) (owned : addr ∈ s.live) :
      Step image s ⟨pmmFreeFrame addr s.pmm, s.live.erase addr⟩
  | setFrameBitmap (s : Session) (start limit : Word) :
      Step image s ⟨pmmSetFrameBitmap start limit s.pmm, s.live⟩
  | reserve (s : Session) (reserved : ReservedMemoryType) :
      Step image s ⟨pmmReserveMemoryRegion image reserved s.pmm, s.live⟩

/-- Any number of calls. -/
abbrev Run (image : KernelImage) : Session → Session → Prop :=
  Relation.ReflTransGen (Step image)

/-- What every run from boot keeps. -/
structure Safe (s : Session) : Prop where
  low : ∀ frame < 256, s.pmm.isUsed frame = true
  live : ∀ addr ∈ s.live, 0x100000 ≤ addr.toNat ∧ addr.toNat % 4096 = 0 ∧
    s.pmm.isUsed (addr.toNat / 4096) = true
  distinct : s.live.Nodup
  count : s.pmm.totalFrames.toNat < 2 ^ 20

/-- Setting bits keeps a session safe. -/
theorem Safe.marks {s : Session} {t : Pmm} {frames accessed : List ℕ} (safe : s.Safe)
    (marks : Marks frames accessed s.pmm t) : Safe ⟨t, s.live⟩ where
  low frame below := marks.mono (safe.low frame below)
  live addr member := by
    obtain ⟨high, aligned, used⟩ := safe.live addr member
    exact ⟨high, aligned, marks.mono used⟩
  distinct := safe.distinct
  count := by
    rw [marks.totalFrames]
    exact safe.count

/-- What a successful allocation from a safe session returns. -/
theorem Safe.nextFrame {s : Session} (safe : s.Safe) {frame : ℕ}
    (found : s.pmm.nextFrame = some frame) :
    256 ≤ frame ∧ (BitVec.ofNat 32 frame * pageSize).toNat = frame * 4096 ∧
      ∀ addr ∈ s.live, addr.toNat / 4096 ≠ frame := by
  obtain ⟨positive, below, free, -⟩ := Pmm.nextFrame_eq_some_iff.mp found
  refine ⟨?_, toNat_frameAddr (below.trans safe.count), ?_⟩
  · by_contra small
    rw [safe.low frame (by omega)] at free
    exact absurd free (by decide)
  · rintro addr member rfl
    rw [(safe.live addr member).2.2] at free
    exact absurd free (by decide)

/-- A freed address leaves the frames of the other live addresses used. -/
theorem Safe.free {s : Session} (safe : s.Safe) {addr : Word} (owned : addr ∈ s.live) :
    Safe ⟨pmmFreeFrame addr s.pmm, s.live.erase addr⟩ where
  low frame below := by
    obtain ⟨high, -⟩ := safe.live addr owned
    have other : ¬(frame = addr.toNat / 4096 ∧ frame < s.pmm.totalFrames.toNat) := by omega
    rw [isUsed_pmmFreeFrame, safe.low frame below, decide_eq_false other]
    rfl
  live kept member := by
    obtain ⟨different, member⟩ := safe.distinct.mem_erase_iff.mp member
    obtain ⟨high, aligned, used⟩ := safe.live kept member
    refine ⟨high, aligned, ?_⟩
    have alignedFreed := (safe.live addr owned).2.1
    have other : ¬(kept.toNat / 4096 = addr.toNat / 4096 ∧
        kept.toNat / 4096 < s.pmm.totalFrames.toNat) := by
      rintro ⟨same, -⟩
      exact different (BitVec.eq_of_toNat_eq (by omega))
    rw [isUsed_pmmFreeFrame, used, decide_eq_false other]
    rfl
  distinct := safe.distinct.erase addr
  count := by
    rw [totalFrames_pmmFreeFrame]
    exact safe.count

/-- An allocation from a safe session leaves it safe. -/
theorem Safe.alloc {s : Session} (safe : s.Safe) :
    Safe ⟨(pmmAllocFrame s.pmm).2, record (pmmAllocFrame s.pmm).1 s.live⟩ := by
  rcases pmmAllocFrame_cases s.pmm with ⟨-, zero, marks⟩ | ⟨frame, found, address, marks⟩
  · rw [zero, record, if_pos rfl]
    exact safe.marks marks
  · obtain ⟨high, exact_, other⟩ := safe.nextFrame found
    have notZero : BitVec.ofNat 32 frame * pageSize ≠ 0 := by
      intro zero
      rw [zero] at exact_
      change 0 = frame * 4096 at exact_
      omega
    have kept := safe.marks marks
    rw [address, record, if_neg notZero]
    refine ⟨kept.low, ?_, ?_, kept.count⟩
    · intro addr member
      rcases List.mem_cons.mp member with rfl | member
      · rw [exact_, Nat.mul_div_cancel _ (by decide)]
        exact ⟨by omega, by omega, marks.isUsed_of_mem (by simp)⟩
      · exact kept.live addr member
    · refine List.nodup_cons.mpr ⟨fun member => other _ member ?_, safe.distinct⟩
      rw [exact_, Nat.mul_div_cancel _ (by decide)]

/-- **Every call keeps a session safe.** -/
theorem Step.safe {image : KernelImage} {s t : Session} (step : Step image s t) (safe : s.Safe) :
    t.Safe := by
  cases step with
  | alloc => exact safe.alloc
  | free addr owned => exact safe.free owned
  | setFrameBitmap start limit => exact safe.marks (marks_pmmSetFrameBitmap start limit s.pmm)
  | reserve reserved => exact safe.marks (marks_pmmReserveMemoryRegion image reserved s.pmm)

theorem Run.safe {image : KernelImage} {s t : Session} (run : Run image s t) (safe : s.Safe) :
    t.Safe := by
  induction run with
  | refl => exact safe
  | tail _ step ih => exact step.safe ih

/-- The reservations at boot make the empty session safe. -/
theorem safe_boot (image : KernelImage) {t : Pmm} (small : t.maxFrameIdx.toNat < 2 ^ 20)
    (count : t.totalFrames ≤ t.maxFrameIdx) : Safe ⟨bootReservations image t, []⟩ where
  low frame below := by
    rw [isUsed_bootReservations small, decide_eq_true below]
    rfl
  live _ member := absurd member (by simp)
  distinct := List.nodup_nil
  count := by
    rw [(marks_bootReservations image t).totalFrames]
    rw [BitVec.le_def] at count
    omega

end Session

/-- The byte ranges reserved for the kernel: the first megabyte, the kernel image,
the bitmap, and the page directory with the first page table. -/
def reservedRanges (image : KernelImage) (maxFrameIdx : Word) : List (ℕ × ℕ) :=
  [(0, 0x100000), (kernelStart.toNat, image.kernelEnd.toNat),
    (frameBitmapAddr.toNat, frameBitmapAddr.toNat + (maxFrameIdx.toNat / 8 + 1)),
    (pageDirStartAddr.toNat, pageTableStartAddr.toNat + 4096)]

/-- The frame at an address has a byte in the range. -/
def frameOverlaps (addr : Word) (range : ℕ × ℕ) : Prop :=
  range.1 < addr.toNat + 4096 ∧ addr.toNat < range.2

/-- No frame at or above 1 MiB overlaps a reserved range. -/
theorem not_frameOverlaps_reservedRanges {image : KernelImage} {maxFrameIdx : Word}
    (small : maxFrameIdx.toNat < 2 ^ 20) {addr : Word} (high : 0x100000 ≤ addr.toNat) :
    ∀ range ∈ reservedRanges image maxFrameIdx, ¬ frameOverlaps addr range := by
  have bound := image.end_le
  rw [BitVec.le_def] at bound
  have directory : pageDirStartAddr.toNat = 0x80000 := rfl
  have table : pageTableStartAddr.toNat = 0x81000 := rfl
  have bitmap : frameBitmapAddr.toNat = 0x90000 := rfl
  intro range member overlaps
  have below := overlaps.2
  simp only [reservedRanges, List.mem_cons, List.not_mem_nil, or_false] at member
  rcases member with rfl | rfl | rfl | rfl
  all_goals
    simp only at below
    omega

/-- **Every address handed out in a run from boot names a fresh frame outside the
reserved memory**: page aligned, not frame 0, not a live frame, and disjoint from
every reserved range. -/
theorem pmmAllocFrame_safe {image : KernelImage} {table : RegionTable}
    {frameBitmap : ℕ → BitVec 8} {fuel : ℕ} {t : Pmm}
    (init : pmmInit fuel table (.fresh frameBitmap) = some t)
    (count : t.totalFrames ≤ t.maxFrameIdx) {s : Session}
    (run : Session.Run image ⟨bootReservations image t, []⟩ s)
    (success : (pmmAllocFrame s.pmm).1 ≠ 0) :
    (pmmAllocFrame s.pmm).1.toNat % 4096 = 0 ∧
      frameIndex (pmmAllocFrame s.pmm).1 ≠ 0 ∧
      (∀ addr ∈ s.live, frameIndex addr ≠ frameIndex (pmmAllocFrame s.pmm).1) ∧
      ∀ range ∈ reservedRanges image t.maxFrameIdx,
        ¬ frameOverlaps (pmmAllocFrame s.pmm).1 range := by
  have small := (initialized_of_pmmInit init).2.maxFrameIdx_lt
  have safe := run.safe (Session.safe_boot image small count)
  rcases pmmAllocFrame_cases s.pmm with ⟨-, zero, -⟩ | ⟨frame, found, address, -⟩
  · exact absurd zero success
  · obtain ⟨high, exact_, other⟩ := safe.nextFrame found
    have index : (frameIndex (BitVec.ofNat 32 frame * pageSize)).toNat = frame := by
      rw [toNat_frameIndex, exact_, Nat.mul_div_cancel _ (by decide)]
    rw [address]
    refine ⟨by omega, fun zero => ?_, fun addr member same => ?_, ?_⟩
    · rw [zero] at index
      change 0 = frame at index
      omega
    · apply other addr member
      rw [← toNat_frameIndex, same, index]
    · exact not_frameOverlaps_reservedRanges small (by omega)

/-- The image of the sample boot log, from `0x10000` to `0x133D0`. -/
def sampleImage : KernelImage := ⟨0x133D0, by decide, by decide⟩

/-- One region of 272 frames from 1 MiB on. -/
def sampleTable : RegionTable where
  regions := [{ base := 0x100000, length := 0x110000, type := e820TypeAvailable }]
  bounded := by decide

/-- A table whose frames above the first megabyte are met from `next` on leaves the
allocator packed at boot. -/
theorem Initialized.packed {table : RegionTable} {frameBitmap : ℕ → BitVec 8} {t : Pmm}
    (init : Initialized table frameBitmap t) (image : KernelImage) {next : ℕ} (high : 256 ≤ next)
    (below : next ≤ table.topFrame)
    (gap : ∀ frame, 256 ≤ frame → frame < next → frame ∉ table.frames)
    (met : ∀ frame, next ≤ frame → frame < table.countBelow table.topFrame →
      frame ∈ table.frames ∧ frame < table.topFrame) :
    Packed next (bootReservations image t) where
  positive := by omega
  used frame _ bound := by
    rw [isUsed_bootReservations init.maxFrameIdx_lt]
    by_cases low : frame < 256
    · simp [low]
    · have reached : frame / 8 < table.topFrame / 8 + 1 := by omega
      have notMet := gap frame (by omega) bound
      simp [init.isUsed, notMet, reached]
  free frame above bound := by
    rw [(marks_bootReservations image t).totalFrames, init.totalFrames] at bound
    obtain ⟨member, small⟩ := met frame above bound
    have notLow : ¬ frame < 256 := by omega
    rw [isUsed_bootReservations init.maxFrameIdx_lt,
      (init.isUsed_eq_false_iff (by omega)).mpr ⟨member, small⟩]
    simpa using notLow

/-- A table with one region of whole pages above the first megabyte. -/
theorem Initialized.packed_of_region {table : RegionTable} {frameBitmap : ℕ → BitVec 8} {t : Pmm}
    (init : Initialized table frameBitmap t) (image : KernelImage) {region : MemoryRegion}
    (only : table.regions = [region]) {first count : ℕ} (high : 256 ≤ first)
    (base : region.regionBase.toNat = first * 4096)
    (stop : region.regionEnd.toNat = (first + count) * 4096) :
    t.totalFrames.toNat = count ∧ t.maxFrameIdx.toNat = first + count ∧
      Packed first (bootReservations image t) := by
  have top : table.topFrame = first + count := by
    rw [RegionTable.topFrame, only]
    simp only [List.foldr_cons, List.foldr_nil, MemoryRegion.endFrame, stop]
    omega
  have frames : table.frames = List.range' first count := by
    rw [RegionTable.frames, only, List.flatMap_singleton, MemoryRegion.frames, loopCount, base, stop]
    congr 1
    · omega
    · omega
  have member : ∀ frame, frame ∈ table.frames ↔ first ≤ frame ∧ frame < first + count := by
    intro frame
    rw [frames, List.mem_range'_1]
  have counted : table.countBelow table.topFrame = count := by
    rw [RegionTable.countBelow, List.countP_eq_length.mpr, frames, List.length_range']
    intro frame listed
    rw [top]
    exact decide_eq_true ((member frame).mp listed).2
  refine ⟨init.totalFrames.trans counted, init.maxFrameIdx.trans top, init.packed image high ?_ ?_ ?_⟩
  · omega
  · intro frame above below listed
    have := (member frame).mp listed
    omega
  · intro frame above below
    rw [counted] at below
    rw [member, top]
    omega

/-- After boot on the sample table, allocation starts at frame 256. -/
theorem packed_sampleTable {t : Pmm} (init : Initialized sampleTable (fun _ => 0) t) :
    t.totalFrames.toNat = 272 ∧ t.maxFrameIdx.toNat = 528 ∧
      Packed 256 (bootReservations sampleImage t) :=
  init.packed_of_region sampleImage rfl le_rfl rfl rfl

/-- The second allocation after boot on the sample table returns frame 257, while
frame 256 is live. -/
theorem pmmAllocFrame_safe_sampleTable :
    ∃ t s, pmmInit (2 ^ 20 + 1) sampleTable (.fresh fun _ => 0) = some t ∧
      Session.Run sampleImage ⟨bootReservations sampleImage t, []⟩ s ∧ s.live = [0x100000] ∧
      (pmmAllocFrame s.pmm).1 = 0x101000 ∧
      ∀ addr ∈ s.live, frameIndex addr ≠ frameIndex (pmmAllocFrame s.pmm).1 := by
  obtain ⟨t, init⟩ := exists_pmmInit sampleTable (by decide) (.fresh fun _ => 0)
  obtain ⟨total, top, packed⟩ := packed_sampleTable (initialized_of_pmmInit init).2
  have count : (bootReservations sampleImage t).totalFrames.toNat = 272 := by
    rw [(marks_bootReservations sampleImage t).totalFrames, total]
  obtain ⟨first, packed⟩ := packed.alloc (by omega)
  have firstAddress := (marks_pmmAllocFrame first).1
  obtain ⟨second, -⟩ := packed.alloc (by rw [totalFrames_pmmAllocFrame]; omega)
  have secondAddress := (marks_pmmAllocFrame second).1
  have run : Session.Run sampleImage ⟨bootReservations sampleImage t, []⟩
      ⟨_, Session.record (pmmAllocFrame (bootReservations sampleImage t)).1 []⟩ :=
    .single (.alloc _)
  have live : Session.record (pmmAllocFrame (bootReservations sampleImage t)).1 [] = [0x100000] := by
    rw [firstAddress]
    decide
  refine ⟨t, _, init, run, live, secondAddress, ?_⟩
  refine (pmmAllocFrame_safe init ?_ run ?_).2.2.1
  · rw [BitVec.le_def]
    omega
  · change (pmmAllocFrame (pmmAllocFrame (bootReservations sampleImage t)).2).1 ≠ 0
    rw [secondAddress]
    decide

/-! ## Accesses to the bitmap -/

/-- One call after boot, with `pmm_free_frame` called with any address. -/
inductive Pmm.Call (image : KernelImage) : Pmm → Pmm → Prop where
  | alloc (s : Pmm) : Call image s (pmmAllocFrame s).2
  | free (s : Pmm) (addr : Word) : Call image s (pmmFreeFrame addr s)
  | reservePageTable (s : Pmm) : Call image s (pmmReserveMemoryRegion image .pageTable s)

/-- Any number of calls. -/
abbrev Pmm.Calls (image : KernelImage) : Pmm → Pmm → Prop :=
  Relation.ReflTransGen (Pmm.Call image)

theorem calls_allocRounds (image : KernelImage) (rounds : ℕ) (s : Pmm) :
    Pmm.Calls image s (allocRounds rounds s) := by
  induction rounds with
  | zero => exact .refl
  | succ rounds ih =>
      rw [allocRounds_succ]
      exact ih.tail (.alloc _)

/-- Every access so far is to one of the first `bytes` bytes, and the count of
frames is the one given. -/
structure Pmm.Inside (bytes count : ℕ) (s : Pmm) : Prop where
  touched : ∀ byte ∈ s.touched, byte < bytes
  total : s.totalFrames.toNat = count

namespace Pmm.Inside

variable {bytes count : ℕ} {s t : Pmm}

/-- Accesses to bits of the first bytes stay inside. -/
theorem marks {frames accessed : List ℕ} (inside : s.Inside bytes count)
    (marks : Marks frames accessed s t) (below : ∀ frame ∈ accessed, frame / 8 < bytes) :
    t.Inside bytes count where
  touched byte member := by
    rcases (marks.touched byte).mp member with earlier | ⟨frame, looked, rfl⟩
    · exact inside.touched byte earlier
    · exact below frame looked
  total := by
    rw [marks.totalFrames]
    exact inside.total

/-- A call stays inside when the bitmap has room for the count of frames and for
the first megabyte. -/
theorem call {image : KernelImage} (inside : s.Inside bytes count) (room : count ≤ 8 * bytes)
    (megabyte : 32 ≤ bytes) (step : Pmm.Call image s t) : t.Inside bytes count := by
  cases step with
  | alloc =>
      have total := inside.total
      rcases pmmAllocFrame_cases s with ⟨-, -, marks⟩ | ⟨frame, found, -, marks⟩
      · refine inside.marks marks fun other member => ?_
        rw [List.mem_range'_1] at member
        omega
      · have below := (Pmm.nextFrame_eq_some_iff.mp found).2.1
        refine inside.marks marks fun other member => ?_
        rw [List.mem_range'_1] at member
        omega
  | free addr =>
      refine ⟨fun byte member => ?_, (congrArg BitVec.toNat (totalFrames_pmmFreeFrame addr s)).trans
        inside.total⟩
      have total := inside.total
      rw [touched_pmmFreeFrame] at member
      split at member
      · rcases List.mem_cons.mp member with rfl | member
        · omega
        · exact inside.touched byte member
      · exact inside.touched byte member
  | reservePageTable =>
      refine inside.marks (marks_pmmReserveMemoryRegion image .pageTable s) fun frame member => ?_
      have low : frame < 256 := by
        rcases List.mem_append.mp member with member | member
        · exact (mem_framesBetween.mp member).2.trans (by decide)
        · exact (mem_framesBetween.mp member).2.trans (by decide)
      omega

/-- Any number of calls stays inside. -/
theorem calls {image : KernelImage} (inside : s.Inside bytes count) (room : count ≤ 8 * bytes)
    (megabyte : 32 ≤ bytes) (calls : Pmm.Calls image s t) : t.Inside bytes count := by
  induction calls with
  | refl => exact inside
  | tail _ step ih => exact ih.call room megabyte step

end Pmm.Inside

/-- **The accesses of every run stay inside the bitmap exactly when the highest
frame of the region table is at least 248 and the count of frames does not exceed
the bits of the bitmap.** -/
theorem touched_lt_iff {image : KernelImage} {table : RegionTable} {frameBitmap : ℕ → BitVec 8}
    {fuel : ℕ} {t : Pmm} (init : pmmInit fuel table (.fresh frameBitmap) = some t) :
    (∀ s, Pmm.Calls image (bootReservations image t) s →
        ∀ byte ∈ s.touched, byte < t.maxFrameIdx.toNat / 8 + 1) ↔
      248 ≤ table.topFrame ∧ table.countBelow table.topFrame ≤ 8 * (table.topFrame / 8 + 1) := by
  have result := (initialized_of_pmmInit init).2
  have small := result.maxFrameIdx_lt
  have boot := marks_bootReservations image t
  rw [result.maxFrameIdx]
  constructor
  · intro inside
    have last : 31 ∈ (bootReservations image t).touched :=
      (boot.touched 31).mpr (.inr ⟨255, mem_bootFrames_of_lt (by decide), rfl⟩)
    have reserved := inside _ .refl 31 last
    refine ⟨by omega, ?_⟩
    by_contra above
    -- The first frame past the bitmap is below the count, so some search gets there.
    have counted : 8 * (table.topFrame / 8 + 1) < (bootReservations image t).totalFrames.toNat := by
      rw [boot.totalFrames, result.totalFrames]
      omega
    obtain ⟨rounds, outside⟩ := exists_allocRounds_touched (by omega) counted
    have := inside _ (calls_allocRounds image rounds _) _ outside
    omega
  · rintro ⟨high, room⟩ s calls
    have start : (bootReservations image t).Inside (table.topFrame / 8 + 1)
        (table.countBelow table.topFrame) := by
      refine Pmm.Inside.marks ⟨fun byte member => ?_, result.totalFrames⟩ boot fun frame member => ?_
      · obtain ⟨frame, -, below, rfl⟩ := (result.touched byte).mp member
        omega
      · have low := lt_of_mem_bootFrames small member
        omega
    exact (start.calls room (by omega) calls).touched

/-- On the sample table every access stays inside. -/
theorem touched_lt_sampleTable :
    ∃ t, pmmInit (2 ^ 20 + 1) sampleTable (.fresh fun _ => 0) = some t ∧
      ∀ s, Pmm.Calls sampleImage (bootReservations sampleImage t) s →
        ∀ byte ∈ s.touched, byte < t.maxFrameIdx.toNat / 8 + 1 := by
  obtain ⟨t, init⟩ := exists_pmmInit sampleTable (by decide) (.fresh fun _ => 0)
  exact ⟨t, init, (touched_lt_iff init).mpr (by decide +kernel)⟩

/-- The 639 KiB of low memory alone. -/
def lowMemoryTable : RegionTable where
  regions := [{ base := 0, length := 0x9FC00, type := e820TypeAvailable }]
  bounded := by decide

/-- With low memory alone the bitmap has 20 bytes, and the reservation of the first
megabyte goes on to byte 31. -/
theorem touched_outside_lowMemoryTable :
    ∃ t, pmmInit (2 ^ 20 + 1) lowMemoryTable (.fresh fun _ => 0) = some t ∧
      t.maxFrameIdx.toNat / 8 + 1 = 20 ∧ 31 ∈ (bootReservations sampleImage t).touched := by
  obtain ⟨t, init⟩ := exists_pmmInit lowMemoryTable (by decide) (.fresh fun _ => 0)
  refine ⟨t, init, ?_, ?_⟩
  · rw [(initialized_of_pmmInit init).2.maxFrameIdx]
    decide
  · exact ((marks_bootReservations sampleImage t).touched 31).mpr
      (.inr ⟨255, mem_bootFrames_of_lt (by decide), rfl⟩)

end KernelV.Memory
