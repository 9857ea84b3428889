import KernelV.Memory.HighMemory
import KernelV.Memory.PageFault
import KernelV.Memory.PmmRuns

/-!
# Boot

`kernelMain` is the memory part of the kernel's entry point: the frame allocator,
the paging structures, and fifteen pages of kernel stack above an unmapped guard
page. The pages of the stack share one page table.

With enough consecutive free frames boot completes (`kernelMain_packed`): it keeps
two frames unused, takes one for the stack's page table and fifteen for the stack,
and leaves the allocator at the next frame.
-/

set_option autoImplicit false

namespace KernelV.Memory

open Library

/-! ## The code -/

/-- The kernel at load time, over the given memory. -/
def Kernel.loaded (frameBitmap : ℕ → BitVec 8) (mem : Word → Word) : Kernel where
  pmm := .fresh frameBitmap
  mem := mem
  panikState := { mode := .normal, panikCalled := false, panikCallCount := 0, lastPanikMsg := none }
  tableFrames := []

/-- One pass of the loop of `kernel_main` that maps the stack. -/
def mapStackPage (off : Word) (k : Kernel) : Machine Kernel := do
  let virt := kernelStackBottomVirt + off
  let physFrame := (pmmAllocFrame k.pmm).1
  let k ← mapNewFrame virt "Stack frame allocation failed" [] k
  return { k with pmm := pmmSetFrameBitmap physFrame (physFrame + pageSize) k.pmm }

/-- The loop of `kernel_main` that maps the stack. It makes fifteen passes. -/
def mapStack (k : Kernel) : Option (Machine Kernel) :=
  let stackSize := kernelStackTopVirt - kernelStackBottomVirt
  wordLoop pageSize stackSize (fun off machine => machine.bind (mapStackPage off)) 17 pageSize (.ok k)

/-- `kernel_main` between the memory map and the paging structures, from an
initialized allocator. -/
def setupPaging (image : KernelImage) (pmm : Pmm) (k : Kernel) : Kernel :=
  let pmm := bootReservations image pmm
  -- Two frames are allocated to show that the allocator works, and kept.
  let pmm := (pmmAllocFrame pmm).2
  let pmm := (pmmAllocFrame pmm).2
  let k := pagingInit { k with pmm }
  { k with pmm := pmmReserveMemoryRegion image .pageTable k.pmm }

/-- `kernel_main` up to the switch to the mapped stack, with a budget for
`pmm_init`. -/
def kernelMain (image : KernelImage) (fuel : ℕ) (map : List E820Entry) (k : Kernel) :
    Option (Machine Kernel) := do
  let pmm ← pmmInit fuel (parseAndPrintE820Map map .empty) k.pmm
  mapStack (setupPaging image pmm k)

/-! ## The loop over the stack -/

theorem mapStackPage_eq (off : Word) (k : Kernel) :
    mapStackPage off k =
      (mapNewFrame (kernelStackBottomVirt + off) "Stack frame allocation failed" [] k).map
        fun next => { next with
          pmm := pmmSetFrameBitmap (pmmAllocFrame k.pmm).1 ((pmmAllocFrame k.pmm).1 + pageSize)
            next.pmm } :=
  rfl

/-- A range of one page has one frame. -/
theorem eq_of_mem_framesBetween {start : Word} (aligned : 4096 ∣ start.toNat) {frame : ℕ}
    (member : frame ∈ framesBetween start (start + pageSize)) : frame = start.toNat / 4096 := by
  obtain ⟨above, below⟩ := mem_framesBetween.mp member
  rw [BitVec.toNat_add, toNat_pageSize] at below
  have bound := start.isLt
  omega

theorem eq_of_mem_framesBetween_frameAddr {number frame : ℕ} (small : number < 2 ^ 20)
    (member : frame ∈ framesBetween (BitVec.ofNat 32 number * pageSize)
      (BitVec.ofNat 32 number * pageSize + pageSize)) : frame = number := by
  have value := toNat_frameAddr small
  rw [eq_of_mem_framesBetween (value ▸ Nat.dvd_mul_left _ _) member, value,
    Nat.mul_div_cancel _ (by decide)]

/-- The offsets of the stack pages. -/
def stackOffsets : List Word := visited pageSize 15 pageSize

theorem mapStack_eq (k : Kernel) :
    mapStack k =
      some (stackOffsets.foldl (fun machine off => machine.bind (mapStackPage off)) (.ok k)) := by
  have count : loopCount pageSize.toNat pageSize.toNat
      (kernelStackTopVirt - kernelStackBottomVirt).toNat = 15 := by decide
  have ends : LoopEnds 32 pageSize.toNat pageSize.toNat
      (kernelStackTopVirt - kernelStackBottomVirt).toNat := by
    rw [LoopEnds]
    decide
  have enough : loopCount pageSize.toNat pageSize.toNat
      (kernelStackTopVirt - kernelStackBottomVirt).toNat < 17 := by
    rw [count]
    decide
  simp only [mapStack]
  rw [wordLoop_eq_foldl pageSize_dvd pageSize_pos ends enough, count, stackOffsets]

/-- What a finished boot has done. -/
theorem kernelMain_eq_some_iff {image : KernelImage} {fuel : ℕ} {map : List E820Entry} {k : Kernel}
    {machine : Machine Kernel} :
    kernelMain image fuel map k = some machine ↔
      ∃ pmm, pmmInit fuel (parseAndPrintE820Map map .empty) k.pmm = some pmm ∧
        machine = stackOffsets.foldl (fun machine off => machine.bind (mapStackPage off))
          (.ok (setupPaging image pmm k)) := by
  simp only [kernelMain, bind, Option.bind_eq_some_iff, mapStack_eq, Option.some.injEq]
  constructor
  · rintro ⟨pmm, init, rfl⟩
    exact ⟨pmm, init, rfl⟩
  · rintro ⟨pmm, init, rfl⟩
    exact ⟨pmm, init, rfl⟩

/-- The stack pages lie between the guard page and the top of the stack. -/
theorem toNat_stackAddr {off : Word} (member : off ∈ stackOffsets) :
    0xC2FF1000 ≤ (kernelStackBottomVirt + off).toNat ∧
      (kernelStackBottomVirt + off).toNat < 0xC3000000 := by
  have numbers : stackOffsets.map BitVec.toNat = List.range' 4096 15 4096 :=
    map_toNat_visited pageSize 15 pageSize (by decide)
  have listed : off.toNat ∈ List.range' 4096 15 4096 := numbers ▸ List.mem_map_of_mem member
  obtain ⟨place, bound, value⟩ := List.mem_range'.mp listed
  have bottom : kernelStackBottomVirt.toNat = 0xC2FF0000 := rfl
  rw [BitVec.toNat_add, bottom, value]
  omega

theorem le_stackAddr : ∀ off ∈ stackOffsets, identityLimit ≤ kernelStackBottomVirt + off := by
  intro off member
  have limit : identityLimit.toNat = 0x400000 := rfl
  have above := (toNat_stackAddr member).1
  rw [BitVec.le_def]
  omega

/-- The pages of the stack have the numbers from `0xC2FF1` on. -/
theorem pageNumber_stackOffsets :
    stackOffsets.map (fun off => pageNumber (kernelStackBottomVirt + off)) = List.range' 0xC2FF1 15 := by
  decide

/-- The stack pages share one directory entry. -/
theorem pdirIndex_stackAddr {off : Word} (member : off ∈ stackOffsets) :
    pdirIndex (kernelStackBottomVirt + off) = 779 := by
  obtain ⟨above, below⟩ := toNat_stackAddr member
  rw [pdirIndex_eq, toNat_pageNumber]
  omega

/-! ## Boot with consecutive free frames -/

theorem Packed.pmmAllocFrame {next : ℕ} {s : Pmm} (packed : Packed next s)
    (room : next < s.totalFrames.toNat) (small : next < 2 ^ 20) :
    (pmmAllocFrame s).1 = BitVec.ofNat 32 next * pageSize ∧ (pmmAllocFrame s).1 ≠ 0 ∧
      Packed (next + 1) (pmmAllocFrame s).2 := by
  obtain ⟨found, after⟩ := packed.alloc room
  have address := (marks_pmmAllocFrame found).1
  have positive := packed.positive
  refine ⟨address, fun zero => ?_, after⟩
  have value := toNat_frameAddr small
  rw [← address, zero] at value
  change 0 = next * 4096 at value
  omega

/-- Two allocations return neighbouring frames. -/
theorem pmmAllocFrame_twice {next : ℕ} {s : Pmm} (packed : Packed next s)
    (room : next + 1 < s.totalFrames.toNat) (small : next + 1 < 2 ^ 20) :
    ((pmmAllocFrame s).1 = BitVec.ofNat 32 next * pageSize ∧ (pmmAllocFrame s).1 ≠ 0) ∧
      (pmmAllocFrame (pmmAllocFrame s).2).1 = BitVec.ofNat 32 (next + 1) * pageSize ∧
      (pmmAllocFrame (pmmAllocFrame s).2).1 ≠ 0 ∧
      Packed (next + 2) (pmmAllocFrame (pmmAllocFrame s).2).2 := by
  obtain ⟨address, success, after⟩ := packed.pmmAllocFrame (by omega) (by omega)
  have roomAfter : next + 1 < (pmmAllocFrame s).2.totalFrames.toNat := by
    rw [totalFrames_pmmAllocFrame]
    exact room
  exact ⟨⟨address, success⟩, after.pmmAllocFrame roomAfter small⟩

/-- Setting bits that are set already keeps an allocator packed. -/
theorem Packed.marks {next : ℕ} {s t : Pmm} {frames accessed : List ℕ} (packed : Packed next s)
    (marks : Marks frames accessed s t) (used : ∀ frame ∈ frames, s.isUsed frame = true) :
    Packed next t := by
  refine ⟨packed.positive, fun frame positive below => ?_, fun frame above below => ?_⟩
  · rw [marks.isUsed_eq used]
    exact packed.used frame positive below
  · rw [marks.isUsed_eq used]
    rw [marks.totalFrames] at below
    exact packed.free frame above below

section PackedKernel

variable {k : Kernel} {next : ℕ} {virtualAddr : Word} (format : String) (arguments : List Word)

/-- A page with a linked table takes one frame. -/
theorem mapNewFrame_packed_linked (packed : Packed next k.pmm)
    (room : next < k.pmm.totalFrames.toNat) (small : next < 2 ^ 20) {table : Word}
    (linked : tableAt k.mem (pdirIndex virtualAddr) = some table) (low : table < identityLimit) :
    mapNewFrame virtualAddr format arguments k =
      .ok { k.withFrame with
              mem := setEntry k.mem table (ptableIndex virtualAddr)
                (pageEntry (BitVec.ofNat 32 next * pageSize) (pagePresent ||| pageWrite)) } := by
  obtain ⟨address, success, -⟩ := packed.pmmAllocFrame room small
  rw [mapNewFrame_success virtualAddr format arguments success, address]
  exact pagingMapPage_linked _ _ linked low

theorem frameAddr_lt_identityLimit_iff {frame : ℕ} (small : frame < 2 ^ 20) :
    BitVec.ofNat 32 frame * pageSize < identityLimit ↔ frame < 1024 := by
  have limit : identityLimit.toNat = 0x400000 := rfl
  rw [BitVec.lt_def, toNat_frameAddr small, limit]
  omega

/-- A page without a linked table takes two frames, if the second one is low. -/
theorem mapNewFrame_packed_absent (packed : Packed next k.pmm)
    (room : next + 1 < k.pmm.totalFrames.toNat) (low : next + 1 < 1024)
    (absent : tableAt k.mem (pdirIndex virtualAddr) = none) :
    mapNewFrame virtualAddr format arguments k =
      .ok { k.withFrame.withTableFrame with
              mem := setEntry
                (linkTable k.mem (pdirIndex virtualAddr) (BitVec.ofNat 32 (next + 1) * pageSize))
                (BitVec.ofNat 32 (next + 1) * pageSize) (ptableIndex virtualAddr)
                (pageEntry (BitVec.ofNat 32 next * pageSize) (pagePresent ||| pageWrite)) } := by
  obtain ⟨⟨address, success⟩, table, tableSuccess, -⟩ := pmmAllocFrame_twice packed room (by omega)
  have lowTable : BitVec.ofNat 32 (next + 1) * pageSize < identityLimit :=
    (frameAddr_lt_identityLimit_iff (by omega)).mpr low
  have mapped := pagingMapPage_new (k := k.withFrame) (BitVec.ofNat 32 next * pageSize)
    (pagePresent ||| pageWrite) absent tableSuccess (table ▸ lowTable)
  have frame : (pmmAllocFrame k.withFrame.pmm).1 = BitVec.ofNat 32 (next + 1) * pageSize := table
  rw [frame] at mapped
  rw [mapNewFrame_success virtualAddr format arguments success, address]
  exact mapped

/-- A page without a linked table stops the machine if the second frame is high. -/
theorem mapNewFrame_packed_high (packed : Packed next k.pmm)
    (room : next + 1 < k.pmm.totalFrames.toNat) (small : next + 1 < 2 ^ 20) (high : 1024 ≤ next + 1)
    (absent : tableAt k.mem (pdirIndex virtualAddr) = none) :
    mapNewFrame virtualAddr format arguments k = .error k.withFrame.withTableFrame ∧
      k.withFrame.withTableFrame.tableFrames =
        BitVec.ofNat 32 (next + 1) * pageSize :: k.tableFrames := by
  obtain ⟨⟨-, success⟩, table, tableSuccess, -⟩ := pmmAllocFrame_twice packed room small
  have highTable : ¬ BitVec.ofNat 32 (next + 1) * pageSize < identityLimit := fun low =>
    absurd ((frameAddr_lt_identityLimit_iff small).mp low) (by omega)
  rw [mapNewFrame_success virtualAddr format arguments success]
  refine ⟨pagingMapPage_high (k := k.withFrame) _ _ absent tableSuccess (table ▸ highTable), ?_⟩
  rw [← table]
  rfl

end PackedKernel

/-- From `k` to `last` frames were taken up to `next`, and no table was linked. -/
structure Advances (next : ℕ) (k last : Kernel) : Prop where
  packed : Packed next last.pmm
  totalFrames : last.pmm.totalFrames = k.pmm.totalFrames
  tableFrames : last.tableFrames = k.tableFrames
  tables : ∀ index < pageEntries, tableAt last.mem index = tableAt k.mem index

/-- A stack page with a linked table takes one frame. -/
theorem mapStackPage_packed {k : Kernel} {next : ℕ} (packed : Packed next k.pmm)
    (room : next < k.pmm.totalFrames.toNat) (small : next < 2 ^ 20) {off table : Word}
    (linked : tableAt k.mem (pdirIndex (kernelStackBottomVirt + off)) = some table)
    (low : table < identityLimit) (notDirectory : table ≠ pageDirStartAddr) :
    ∃ last, mapStackPage off k = .ok last ∧ Advances (next + 1) k last := by
  obtain ⟨address, -, after⟩ := packed.pmmAllocFrame room small
  have marks := marks_pmmSetFrameBitmap (pmmAllocFrame k.pmm).1 ((pmmAllocFrame k.pmm).1 + pageSize)
    (pmmAllocFrame k.pmm).2
  rw [mapStackPage_eq, mapNewFrame_packed_linked _ _ packed room small linked low]
  refine ⟨_, rfl, after.marks marks fun frame member => ?_, ?_, rfl, fun index within => ?_⟩
  · rw [address] at member
    rw [eq_of_mem_framesBetween_frameAddr small member]
    exact after.used next packed.positive (Nat.lt_succ_self next)
  · exact marks.totalFrames.trans (totalFrames_pmmAllocFrame k.pmm)
  · exact tableAt_setEntry (dvd_of_tableAt linked) notDirectory (ptableIndex_lt _) _ within

/-- Any number of stack pages with a linked table. -/
theorem foldl_mapStackPage_packed (offs : List Word) {k : Kernel} {next : ℕ}
    (packed : Packed next k.pmm) (room : next + offs.length ≤ k.pmm.totalFrames.toNat)
    (small : next + offs.length ≤ 2 ^ 20) {table : Word}
    (linked : ∀ off ∈ offs, tableAt k.mem (pdirIndex (kernelStackBottomVirt + off)) = some table)
    (low : table < identityLimit) (notDirectory : table ≠ pageDirStartAddr) :
    ∃ last, offs.foldl (fun (machine : Machine Kernel) off => machine.bind (mapStackPage off)) (.ok k) =
        .ok last ∧
      Advances (next + offs.length) k last := by
  induction offs generalizing k next with
  | nil => exact ⟨k, rfl, packed, rfl, rfl, fun _ _ => rfl⟩
  | cons off offs ih =>
      rw [List.length_cons] at room small
      obtain ⟨mapped, ran, first⟩ := mapStackPage_packed packed (by omega) (by omega)
        (linked off List.mem_cons_self) low notDirectory
      have still : ∀ off ∈ offs,
          tableAt mapped.mem (pdirIndex (kernelStackBottomVirt + off)) = some table := by
        intro off member
        rw [first.tables _ (pdirIndex_lt _)]
        exact linked off (List.mem_cons_of_mem _ member)
      obtain ⟨last, rest, more⟩ := ih first.packed (by rw [first.totalFrames]; omega) (by omega) still
      refine ⟨last, ?_, ?_⟩
      · rw [List.foldl_cons]
        change offs.foldl _ (mapStackPage off k) = _
        rw [ran]
        exact rest
      · rw [List.length_cons, show next + (offs.length + 1) = next + 1 + offs.length by omega]
        exact ⟨more.packed, more.totalFrames.trans first.totalFrames,
          more.tableFrames.trans first.tableFrames,
          fun index within => (more.tables index within).trans (first.tables index within)⟩

/-- A frame above the first megabyte is not the directory. -/
theorem frameAddr_ne_pageDirStartAddr {frame : ℕ} (high : 256 ≤ frame) (small : frame < 2 ^ 20) :
    BitVec.ofNat 32 frame * pageSize ≠ pageDirStartAddr := by
  intro same
  have value := toNat_frameAddr small
  have directory : pageDirStartAddr.toNat = 0x80000 := rfl
  rw [same, directory] at value
  omega

/-- A stack page without a linked table takes two frames and links the second. -/
theorem mapStackPage_packed_absent {k : Kernel} {next : ℕ} (packed : Packed next k.pmm)
    (high : 256 ≤ next) (room : next + 1 < k.pmm.totalFrames.toNat) (low : next + 1 < 1024)
    {off : Word} (absent : tableAt k.mem (pdirIndex (kernelStackBottomVirt + off)) = none) :
    ∃ last, mapStackPage off k = .ok last ∧ Packed (next + 2) last.pmm ∧
      last.pmm.totalFrames = k.pmm.totalFrames ∧
      last.tableFrames = BitVec.ofNat 32 (next + 1) * pageSize :: k.tableFrames ∧
      ∀ index < pageEntries, tableAt last.mem index =
        if index = pdirIndex (kernelStackBottomVirt + off) then
          some (BitVec.ofNat 32 (next + 1) * pageSize)
        else tableAt k.mem index := by
  have small : next + 1 < 2 ^ 20 := by omega
  obtain ⟨⟨address, -⟩, table, -, afterTable⟩ := pmmAllocFrame_twice packed room small
  have notDirectory := frameAddr_ne_pageDirStartAddr (by omega) small
  have aligned : 4096 ∣ (BitVec.ofNat 32 (next + 1) * pageSize).toNat := by
    rw [toNat_frameAddr small]
    exact Nat.dvd_mul_left _ _
  have marks := marks_pmmSetFrameBitmap (pmmAllocFrame k.pmm).1 ((pmmAllocFrame k.pmm).1 + pageSize)
    (pmmAllocFrame (pmmAllocFrame k.pmm).2).2
  rw [mapStackPage_eq, mapNewFrame_packed_absent _ _ packed room low absent]
  refine ⟨_, rfl, afterTable.marks marks fun frame member => ?_, ?_, ?_, fun index within => ?_⟩
  · rw [address] at member
    rw [eq_of_mem_framesBetween_frameAddr (by omega) member]
    exact afterTable.used next packed.positive (by omega)
  · exact marks.totalFrames.trans
      ((totalFrames_pmmAllocFrame _).trans (totalFrames_pmmAllocFrame k.pmm))
  · exact congrArg (· :: k.tableFrames) table
  · exact (tableAt_setEntry aligned notDirectory (ptableIndex_lt _) _ within).trans
      (tableAt_linkTable aligned notDirectory (pdirIndex_lt _) within)

/-- The page directory and the first page table lie below 1 MiB. -/
theorem bounds_of_mem_reservedFrames {image : KernelImage} {maxFrameIdx : Word} {frame : ℕ}
    (member : frame ∈ reservedFrames image maxFrameIdx .pageTable) : 1 ≤ frame ∧ frame < 256 := by
  have directoryStart : pageDirStartAddr.toNat / 4096 = 0x80 := by decide
  have directoryEnd : ((pageDirStartAddr + 4096).toNat + 4095) % 2 ^ 32 / 4096 = 0x81 := by decide
  have tableStart : pageTableStartAddr.toNat / 4096 = 0x81 := by decide
  have tableEnd : ((pageTableStartAddr + 4096).toNat + 4095) % 2 ^ 32 / 4096 = 0x82 := by decide
  rcases List.mem_append.mp member with directory | table
  · obtain ⟨above, below⟩ := mem_framesBetween.mp directory
    omega
  · obtain ⟨above, below⟩ := mem_framesBetween.mp table
    omega

/-- The paging structures take nothing from the allocator. -/
theorem pmm_pagingInit (k : Kernel) (pmm : Pmm) : (pagingInit { k with pmm }).pmm = pmm := rfl

/-- What boot does to the allocator before the stack is mapped. -/
theorem pmm_setupPaging (image : KernelImage) (pmm : Pmm) (k : Kernel) :
    (setupPaging image pmm k).pmm = pmmReserveMemoryRegion image .pageTable
      (pmmAllocFrame (pmmAllocFrame (bootReservations image pmm)).2).2 := by
  have paged := pmm_pagingInit k (pmmAllocFrame (pmmAllocFrame (bootReservations image pmm)).2).2
  exact congrArg (pmmReserveMemoryRegion image .pageTable) paged

/-- Before the stack is mapped the first page table is the only one. -/
theorem tableAt_setupPaging (image : KernelImage) (pmm : Pmm) (k : Kernel) {index : ℕ}
    (within : index < pageEntries) :
    tableAt (setupPaging image pmm k).mem index = if index = 0 then some pageTableStartAddr else none :=
  tableAt_pagingInit _ within

/-- The allocator before the stack is mapped has given away two frames. -/
theorem packed_setupPaging {image : KernelImage} {t : Pmm} {next : ℕ}
    (packed : Packed next (bootReservations image t)) (high : 256 ≤ next)
    (room : next + 1 < t.totalFrames.toNat) (small : next + 1 < 2 ^ 20) (k : Kernel) :
    Packed (next + 2) (setupPaging image t k).pmm ∧
      (setupPaging image t k).pmm.totalFrames = t.totalFrames := by
  have boot := (marks_bootReservations image t).totalFrames
  obtain ⟨-, -, -, second⟩ := pmmAllocFrame_twice packed (by rw [boot]; exact room) small
  have marks := marks_pmmReserveMemoryRegion image .pageTable
    (pmmAllocFrame (pmmAllocFrame (bootReservations image t)).2).2
  rw [pmm_setupPaging]
  refine ⟨second.marks marks fun frame member => ?_, ?_⟩
  · obtain ⟨positive, below⟩ := bounds_of_mem_reservedFrames member
    exact second.used frame positive (by omega)
  · exact marks.totalFrames.trans ((totalFrames_pmmAllocFrame _).trans
      ((totalFrames_pmmAllocFrame _).trans boot))

/-- **Boot completes when eighteen consecutive frames are free and the fourth of them,
which becomes the page table of the stack, is low.** -/
theorem kernelMain_packed {image : KernelImage} {fuel : ℕ} {map : List E820Entry}
    {frameBitmap : ℕ → BitVec 8} {t : Pmm} (init : initFromMap fuel map frameBitmap = some t)
    {next : ℕ} (packed : Packed next (bootReservations image t)) (high : 256 ≤ next)
    (room : next + 18 ≤ t.totalFrames.toNat) (low : next + 3 < 1024) (mem : Word → Word) :
    ∃ k, kernelMain image fuel map (.loaded frameBitmap mem) = some (.ok k) ∧
      Packed (next + 18) k.pmm ∧ k.pmm.totalFrames = t.totalFrames ∧
      k.tableFrames = [BitVec.ofNat 32 (next + 3) * pageSize] ∧
      ∀ index < pageEntries, index ≠ 0 → index ≠ 779 → tableAt k.mem index = none := by
  obtain ⟨ready, total⟩ :=
    packed_setupPaging packed high (by omega) (by omega) (.loaded frameBitmap mem)
  have head : pageSize ∈ stackOffsets := List.mem_cons_self
  have absent : tableAt (setupPaging image t (.loaded frameBitmap mem)).mem
      (pdirIndex (kernelStackBottomVirt + pageSize)) = none := by
    rw [tableAt_setupPaging image t _ (pdirIndex_lt _), pdirIndex_stackAddr head]
    rfl
  obtain ⟨first, ranFirst, packedFirst, totalFirst, framesFirst, tablesFirst⟩ :=
    mapStackPage_packed_absent ready (by omega) (by rw [total]; omega) low absent
  have shared : ∀ off ∈ visited pageSize 14 (pageSize + pageSize),
      tableAt first.mem (pdirIndex (kernelStackBottomVirt + off)) =
        some (BitVec.ofNat 32 (next + 3) * pageSize) := by
    intro off member
    have listed : off ∈ stackOffsets := List.mem_cons_of_mem _ member
    rw [tablesFirst _ (pdirIndex_lt _), pdirIndex_stackAddr listed, pdirIndex_stackAddr head]
    exact if_pos rfl
  have length : (visited pageSize 14 (pageSize + pageSize)).length = 14 := rfl
  obtain ⟨last, ranRest, rest⟩ := foldl_mapStackPage_packed (visited pageSize 14 (pageSize + pageSize))
    packedFirst (by rw [totalFirst, total, length]; omega) (by rw [length]; omega) shared
    ((frameAddr_lt_identityLimit_iff (by omega)).mpr low)
    (frameAddr_ne_pageDirStartAddr (by omega) (by omega))
  rw [length] at rest
  refine ⟨last, kernelMain_eq_some_iff.mpr ⟨t, init, ?_⟩, rest.packed,
    rest.totalFrames.trans (totalFirst.trans total), rest.tableFrames.trans framesFirst, ?_⟩
  · have split : stackOffsets = pageSize :: visited pageSize 14 (pageSize + pageSize) := rfl
    rw [split, List.foldl_cons, ← ranRest, ← ranFirst]
    rfl
  · intro index within notFirst notStack
    rw [rest.tables index within, tablesFirst index within, pdirIndex_stackAddr head, if_neg notStack,
      tableAt_setupPaging image t _ within, if_neg notFirst]

end KernelV.Memory
