import KernelV.Memory.Ownership

/-!
# Where page tables come from

The kernel can edit a page table only inside the first 4 MiB, but it takes the frames
for new tables from the allocator that also hands out data frames, lowest frame
first. A fault in the heap takes one frame for the data and, when the directory has no
table for the address, the next free frame for the table.

So a table lands outside of the first 4 MiB exactly when, at a fault that needs one,
the second lowest free frame is frame 1024 or a later one (`tableFrames_low_iff`).
Along a run the tables are low as long as every fault finds the second free frame
low, and only then (`tablesLow_iff`).

No bound on the allocator's count is needed for this. A run in the heap takes at most
two frames for each page of the heap (`heapRun_owned`), and a count beyond the number
of frames there are means that some region is longer than that
(`ample_of_initFromMap`).
-/

set_option autoImplicit false

namespace KernelV.Memory

open Library

/-! ## The frame a new table gets -/

/-- The second lowest free frame below the count. -/
def SecondFree (s : Pmm) (second : ℕ) : Prop :=
  second < s.totalFrames.toNat ∧ s.isUsed second = false ∧
    ∃ first, 1 ≤ first ∧ first < second ∧ s.isUsed first = false ∧
      ∀ other, 1 ≤ other → other < second → other ≠ first → s.isUsed other = true

/-- The second of two allocations returns the second lowest free frame. -/
theorem secondFree_iff {s : Pmm} {second : ℕ} :
    SecondFree s second ↔
      ∃ first, s.nextFrame = some first ∧ (pmmAllocFrame s).2.nextFrame = some second := by
  constructor
  · rintro ⟨below, free, first, positive, before, freeFirst, others⟩
    have found : s.nextFrame = some first :=
      Pmm.nextFrame_eq_some_iff.mpr ⟨positive, by omega, freeFirst, fun other above small =>
        others other above (by omega) (by omega)⟩
    have marks := (marks_pmmAllocFrame found).2
    refine ⟨first, found, Pmm.nextFrame_eq_some_iff.mpr ⟨by omega, ?_, ?_, fun other above small => ?_⟩⟩
    · rw [marks.totalFrames]
      exact below
    · have different : second ≠ first := by omega
      rw [marks.isUsed, free]
      simpa using different
    · by_cases same : other = first
      · exact marks.isUsed_of_mem (by simp [same])
      · exact marks.mono (others other above small same)
  · rintro ⟨first, found, foundNext⟩
    have marks := (marks_pmmAllocFrame found).2
    obtain ⟨positive, -, freeFirst, earlier⟩ := Pmm.nextFrame_eq_some_iff.mp found
    obtain ⟨above, below, free, others⟩ := Pmm.nextFrame_eq_some_iff.mp foundNext
    rw [marks.totalFrames] at below
    rw [marks.isUsed, Bool.or_eq_false_iff, decide_eq_false_iff_not, List.mem_singleton] at free
    obtain ⟨different, unused⟩ := free
    refine ⟨below, unused, first, positive, ?_, freeFirst, fun other positiveOther small notFirst => ?_⟩
    · by_contra notBefore
      rw [earlier second above (by omega)] at unused
      exact absurd unused (by decide)
    · have used := others other positiveOther small
      rw [marks.isUsed, Bool.or_eq_true, decide_eq_true_iff, List.mem_singleton] at used
      exact used.resolve_left notFirst

/-- If a fault at the address needs a page table, the second free frame is low. -/
def TableFrameLow (k : Kernel) (addr : Word) : Prop :=
  tableAt k.mem (pdirIndex addr) = none → ∀ second, SecondFree k.pmm second → second < 1024

section Step

variable {k : Kernel} {virtualAddr : Word}

/-- Without a linked table `paging_map_page` asks for exactly one frame. -/
theorem tableFrames_pagingMapPage (owned : Owned k)
    (absent : tableAt k.mem (pdirIndex virtualAddr) = none) (physicalAddr flags : Word) :
    (pagingMapPage virtualAddr physicalAddr flags k).state.tableFrames =
      (pmmAllocFrame k.pmm).1 :: k.tableFrames := by
  rcases pagingMapPage_cases physicalAddr flags owned.apart owned.normal with
    ⟨table, linked, -⟩ | ⟨-, ⟨panikState, -, result⟩ | ⟨-, -, result⟩⟩
  · rw [absent] at linked
    exact absurd linked.symm (Option.some_ne_none _)
  · rw [result]
    rfl
  · rw [result]
    rfl

/-- An allocation of an owned kernel fails only without a free frame. -/
theorem Owned.nextFrame_eq_none (owned : Owned k) {rounds : ℕ} (ample : Ample (rounds + 1) k.pmm)
    (failure : (pmmAllocFrame k.pmm).1 = 0) : k.pmm.nextFrame = none := by
  rcases pmmAllocFrame_cases k.pmm with ⟨none, -, -⟩ | ⟨frame, found, address, -⟩
  · exact none
  · obtain ⟨high, value, -⟩ := owned.nextFrame ample found
    rw [← address, failure] at value
    change 0 = frame * 4096 at value
    omega

/-- Without a table for the address, the second frame allocated decides. -/
theorem tableFrameLow_iff (ample : Ample 2 k.pmm) {addr : Word}
    (absent : tableAt k.mem (pdirIndex addr) = none) (success : (pmmAllocFrame k.pmm).1 ≠ 0) :
    TableFrameLow k addr ↔ (pmmAllocFrame k.withFrame.pmm).1 < identityLimit := by
  have ampleNext : Ample 1 k.withFrame.pmm := ample.alloc
  obtain ⟨first, found⟩ : ∃ first, k.pmm.nextFrame = some first := by
    rcases pmmAllocFrame_cases k.pmm with ⟨-, zero, -⟩ | ⟨first, found, -, -⟩
    · exact absurd zero success
    · exact ⟨first, found⟩
  rcases pmmAllocFrame_cases k.withFrame.pmm with ⟨none, zero, -⟩ | ⟨second, foundNext, address, -⟩
  · rw [zero]
    refine ⟨fun _ => by decide, fun _ _ second free => ?_⟩
    obtain ⟨-, -, foundNext⟩ := secondFree_iff.mp free
    exact absurd (none.symm.trans foundNext) (Option.some_ne_none _).symm
  · rw [address, frameAddr_lt_identityLimit_iff (ampleNext.nextFrame_lt foundNext)]
    constructor
    · intro low
      exact low absent second (secondFree_iff.mpr ⟨first, found, foundNext⟩)
    · intro low _ other free
      obtain ⟨-, -, foundOther⟩ := secondFree_iff.mp free
      obtain rfl : second = other := Option.some.inj (foundNext.symm.trans foundOther)
      exact low

/-- **A fault in the heap gets a low table exactly when the second free frame is low
or no table is needed.** -/
theorem tableFrames_low_iff (owned : Owned k) (ample : Ample 2 k.pmm) {addr : Word}
    (heap : InHeap addr) (frame : PageFaultStack) :
    (∀ table ∈ (pageFaultHandler addr frame k).state.tableFrames, table < identityLimit) ↔
      (∀ table ∈ k.tableFrames, table < identityLimit) ∧ TableFrameLow k addr := by
  obtain ⟨ownedNext, -⟩ := owned.withFrame ample
  rw [pageFaultHandler_heap heap]
  by_cases failure : (pmmAllocFrame k.pmm).1 = 0
  · have nothing := owned.nextFrame_eq_none ample failure
    obtain ⟨panikState, -, result⟩ := mapNewFrame_exhausted addr
      "Out of memory: Unable to allocate frame for page fault at address 0x%x" [addr] owned.normal failure
    have vacuous : TableFrameLow k addr := by
      intro _ second free
      obtain ⟨first, found, -⟩ := secondFree_iff.mp free
      exact absurd (nothing.symm.trans found) (Option.some_ne_none _).symm
    rw [result]
    exact ⟨fun low => ⟨low, vacuous⟩, fun both => both.1⟩
  · rw [mapNewFrame_success addr _ _ failure]
    cases linked : tableAt k.mem (pdirIndex addr) with
    | some table =>
        have low := owned.apart.low _ (pdirIndex_lt addr) table linked
        have vacuous : TableFrameLow k addr := fun absent =>
          absurd (linked.symm.trans absent) (Option.some_ne_none _)
        rw [pagingMapPage_linked (k := k.withFrame) _ _ linked low]
        exact ⟨fun low => ⟨low, vacuous⟩, fun both => both.1⟩
    | none =>
        rw [tableFrames_pagingMapPage ownedNext linked, List.forall_mem_cons, and_comm,
          tableFrameLow_iff ample linked failure]
        rfl

/-- A frame mapped while the machine goes on: one page has a new present entry, and a
new table is low. -/
theorem Owned.mapsPage_of_ok (owned : Owned k) (ample : Ample 2 k.pmm) {format : String}
    {arguments : List Word} {next : Kernel}
    (ran : Memory.mapNewFrame virtualAddr format arguments k = .ok next) :
    MapsPage virtualAddr (pageEntry (pmmAllocFrame k.pmm).1 (pagePresent ||| pageWrite)) k.mem next.mem ∧
      ∀ table ∈ next.tableFrames, table ∈ k.tableFrames ∨ table < identityLimit := by
  obtain ⟨ownedNext, -⟩ := owned.withFrame ample
  have ampleNext : Ample 1 k.withFrame.pmm := ample.alloc
  by_cases failure : (pmmAllocFrame k.pmm).1 = 0
  · obtain ⟨panikState, -, result⟩ :=
      mapNewFrame_exhausted virtualAddr format arguments owned.normal failure
    rw [result] at ran
    cases ran
  · rw [mapNewFrame_success virtualAddr format arguments failure] at ran
    rcases @pagingMapPage_cases virtualAddr k.withFrame (pmmAllocFrame k.pmm).1
      (pagePresent ||| pageWrite) ownedNext.apart ownedNext.normal with
      ⟨table, linked, result⟩ | ⟨absent, ⟨panikState, -, result⟩ | ⟨success, low, result⟩⟩
    · rw [result] at ran
      cases ran
      exact ⟨mapsPage_setEntry ownedNext.apart linked _, fun table member => .inl member⟩
    · rw [result] at ran
      cases ran
    · obtain ⟨-, zero | ⟨table, -⟩⟩ := ownedNext.withTableFrame ampleNext
      · exact absurd zero success
      have fresh := ownedNext.freshTable table.taken.1 table.aligned low table.unowned
      rw [result] at ran
      cases ran
      refine ⟨mapsPage_linkTable ownedNext.apart fresh absent _, fun table member => ?_⟩
      rcases List.mem_cons.mp member with rfl | member
      · exact .inr low
      · exact .inl member

end Step

/-! ## Pages of the heap -/

/-- The pages of the heap without a present entry. -/
def absentPages (mem : Word → Word) : Finset ℕ :=
  (Finset.Ico 0xC1000 0xC2000).filter fun page => walk mem (BitVec.ofNat 32 page * pageSize) = none

theorem walk_congr (mem : Word → Word) {addr other : Word} (same : pageNumber addr = pageNumber other) :
    walk mem addr = walk mem other := by
  obtain ⟨directory, table⟩ := pageNumber_eq_iff.mp same
  rw [walk, entryAt, directory, table, walk, entryAt]

theorem pageNumber_frameAddr {page : ℕ} (small : page < 2 ^ 20) :
    pageNumber (BitVec.ofNat 32 page * pageSize) = page := by
  rw [toNat_pageNumber, toNat_frameAddr small, Nat.mul_div_cancel _ (by decide)]

/-- Mapping an absent page leaves fewer absent pages. -/
theorem card_absent_lt {pages : Finset ℕ} (small : ∀ page ∈ pages, page < 2 ^ 20)
    {mem mem' : Word → Word} {addr entry : Word} (maps : MapsPage addr entry mem mem')
    (present : isPresent entry = true) (inside : pageNumber addr ∈ pages)
    (absent : walk mem addr = none) :
    (pages.filter fun page => walk mem' (BitVec.ofNat 32 page * pageSize) = none).card <
      (pages.filter fun page => walk mem (BitVec.ofNat 32 page * pageSize) = none).card := by
  have mapped : walk mem' addr = some entry := maps.walk_self present rfl
  have own : pageNumber (BitVec.ofNat 32 (pageNumber addr) * pageSize) = pageNumber addr :=
    pageNumber_frameAddr (small _ inside)
  apply Finset.card_lt_card
  refine Finset.ssubset_iff_of_subset (fun page member => ?_) |>.mpr ⟨pageNumber addr, ?_, ?_⟩
  · obtain ⟨inRange, missing⟩ := Finset.mem_filter.mp member
    refine Finset.mem_filter.mpr ⟨inRange, ?_⟩
    rw [← maps.walk]
    · exact missing
    · rw [pageNumber_frameAddr (small page inRange)]
      rintro rfl
      rw [walk_congr mem' own, mapped] at missing
      exact Option.some_ne_none _ missing
  · refine Finset.mem_filter.mpr ⟨inside, ?_⟩
    rw [walk_congr mem own]
    exact absent
  · intro member
    have missing := (Finset.mem_filter.mp member).2
    rw [walk_congr mem' own, mapped] at missing
    exact Option.some_ne_none _ missing

theorem card_absentPages_lt {mem mem' : Word → Word} {addr entry : Word}
    (maps : MapsPage addr entry mem mem') (present : isPresent entry = true) (heap : InHeap addr)
    (absent : walk mem addr = none) : (absentPages mem').card < (absentPages mem).card := by
  have inHeap : pageNumber addr ∈ Finset.Ico 0xC1000 0xC2000 := by
    have start : kernelHeapStart.toNat = 0xC1000000 := rfl
    have stop : kernelHeapEnd.toNat = 0xC2000000 := rfl
    rw [InHeap, BitVec.le_def, BitVec.lt_def] at heap
    rw [Finset.mem_Ico, toNat_pageNumber]
    omega
  refine card_absent_lt (fun page member => ?_) maps present inHeap absent
  have bound := (Finset.mem_Ico.mp member).2
  omega

/-! ## Runs in the heap -/

/-- A fault at an address of the heap whose page is not present. -/
def HeapFault (k : Kernel) (addr : Word) : Prop := InHeap addr ∧ NotPresent k addr

/-- **Faults in the heap keep every frame owned once**, with two frames in hand for
every page that is still absent. -/
theorem heapRun_owned {start : Kernel} {machine : Machine Kernel}
    (run : FaultRun HeapFault start machine) (owned : Owned start)
    (ample : Ample (2 * (absentPages start.mem).card + 2) start.pmm) :
    Owned machine.state ∧
      ∀ last, machine = .ok last → Ample (2 * (absentPages last.mem).card + 2) last.pmm := by
  induction run with
  | booted =>
      refine ⟨owned, fun last same => ?_⟩
      cases same
      exact ample
  | @fault k before addr frame permits ih =>
      have ownedBefore : Owned k := ih.1
      have ampleBefore := ih.2 k rfl
      have two : Ample 2 k.pmm := ampleBefore.mono (by omega)
      refine ⟨ownedBefore.pageFaultHandler two addr frame, fun last same => ?_⟩
      have ran := (pageFaultHandler_heap permits.1 frame k).symm.trans same
      obtain ⟨maps, -⟩ := ownedBefore.mapsPage_of_ok two ran
      have fewer := card_absentPages_lt maps (isPresent_pageEntry _ _) permits.1 permits.2
      have left : Ample (2 * (absentPages last.mem).card + 2 + 2) k.pmm := ampleBefore.mono (by omega)
      have after := left.pageFaultHandler ownedBefore addr frame
      rw [same] at after
      exact after

/-! ## Boot -/

/-- A count below a bound for every region bounds the count of the table. -/
theorem countP_flatMap_frames_le {regions : List MemoryRegion} {bound limit : ℕ}
    (few : ∀ region ∈ regions, region.frames.countP (fun frame => decide (frame < bound)) ≤ limit) :
    (regions.flatMap MemoryRegion.frames).countP (fun frame => decide (frame < bound)) ≤
      regions.length * limit := by
  induction regions with
  | nil => simp
  | cons region regions ih =>
      have head := few region List.mem_cons_self
      have rest := ih fun region member => few region (List.mem_cons_of_mem _ member)
      rw [List.flatMap_cons, List.countP_append, List.length_cons, Nat.succ_mul]
      omega

/-- A count above the number of frames needs a region with more than `2 ^ 15` frames below the
highest one, since there are at most 32 regions. -/
theorem RegionTable.exists_many_of_lt {table : RegionTable}
    (many : 2 ^ 20 < table.countBelow table.topFrame) :
    ∃ region ∈ table.regions,
      2 ^ 15 < region.frames.countP (fun frame => decide (frame < table.topFrame)) := by
  by_contra none
  push Not at none
  have bound := countP_flatMap_frames_le none
  have regions : table.regions.length ≤ 32 := table.bounded
  rw [RegionTable.countBelow, RegionTable.frames] at many
  omega

/-- Of the frames of a region, boot leaves all but the first 256 of memory free. -/
theorem le_card_freeFrames_add (image : KernelImage) {table : RegionTable}
    {frameBitmap : ℕ → BitVec 8} {t : Pmm} (result : Initialized table frameBitmap t)
    {region : MemoryRegion} (member : region ∈ table.regions) :
    region.frames.countP (fun frame => decide (frame < table.topFrame)) ≤
      (freeFrames (bootReservations image t)).card + 256 := by
  have small := table.topFrame_lt
  have counted : (region.frames.filter fun frame => decide (frame < table.topFrame)).toFinset.card =
      region.frames.countP (fun frame => decide (frame < table.topFrame)) := by
    rw [List.countP_eq_length_filter, List.toFinset_card_of_nodup]
    exact List.Nodup.filter _ List.nodup_range'
  have free : (region.frames.filter fun frame => decide (frame < table.topFrame)).toFinset \
      Finset.range 256 ⊆ freeFrames (bootReservations image t) := by
    intro frame listed
    obtain ⟨inside, high⟩ := Finset.mem_sdiff.mp listed
    obtain ⟨met, below⟩ := List.mem_filter.mp (List.mem_toFinset.mp inside)
    have below := of_decide_eq_true below
    rw [Finset.mem_range] at high
    have unused := (result.isUsed_eq_false_iff (by omega)).mpr
      ⟨RegionTable.mem_frames.mpr ⟨region, member, met⟩, below⟩
    refine Finset.mem_filter.mpr ⟨Finset.mem_Ico.mpr ⟨by omega, by omega⟩, ?_⟩
    rw [isUsed_bootReservations result.maxFrameIdx_lt, unused, decide_eq_false high]
    rfl
  have size := Finset.le_card_sdiff (Finset.range 256)
    (region.frames.filter fun frame => decide (frame < table.topFrame)).toFinset
  have room := Finset.card_le_card free
  rw [counted, Finset.card_range] at size
  omega

/-- **Boot leaves frames for every page of the heap and the stack, or has a count that
stays inside.** -/
theorem ample_of_initFromMap {image : KernelImage} {fuel : ℕ} {map : List E820Entry}
    {frameBitmap : ℕ → BitVec 8} {t : Pmm} (init : initFromMap fuel map frameBitmap = some t) :
    Ample 32512 (bootReservations image t) := by
  have result := (initialized_of_pmmInit init).2
  generalize parseAndPrintE820Map map .empty = table at result
  by_cases few : t.totalFrames.toNat ≤ 2 ^ 20
  · refine .inl ?_
    rw [(marks_bootReservations image t).totalFrames]
    exact few
  · refine .inr ?_
    rw [result.totalFrames] at few
    obtain ⟨region, member, many⟩ := RegionTable.exists_many_of_lt (Nat.lt_of_not_le few)
    have free := le_card_freeFrames_add image result member
    omega

/-- Every frame asked for as a page table, and every linked table, is low. -/
def TablesLow (k : Kernel) : Prop :=
  (∀ table ∈ k.tableFrames, table < identityLimit) ∧
    ∀ index < pageEntries, ∀ table, tableAt k.mem index = some table → table < identityLimit

theorem Owned.tablesLow_iff_frames {k : Kernel} (owned : Owned k) :
    TablesLow k ↔ ∀ table ∈ k.tableFrames, table < identityLimit :=
  ⟨fun low => low.1, fun low => ⟨low, owned.apart.low⟩⟩

/-- A stack page mapped while the machine goes on has a low table. -/
theorem low_of_mapStackPage {k next : Kernel} (owned : Owned k) (ample : Ample 2 k.pmm) {off : Word}
    (low : ∀ table ∈ k.tableFrames, table < identityLimit) (ran : mapStackPage off k = .ok next) :
    ∀ table ∈ next.tableFrames, table < identityLimit := by
  rw [mapStackPage_eq] at ran
  cases mapped : mapNewFrame (kernelStackBottomVirt + off) "Stack frame allocation failed" [] k with
  | error stopped =>
      rw [mapped] at ran
      cases ran
  | ok middle =>
      rw [mapped] at ran
      cases ran
      intro table member
      rcases (owned.mapsPage_of_ok ample mapped).2 table member with old | new
      · exact low table old
      · exact new

/-- **A booted kernel owns every frame once, has frames for the heap, and low tables.** -/
theorem booted {image : KernelImage} {fuel : ℕ} {map : List E820Entry} {frameBitmap : ℕ → BitVec 8}
    {mem : Word → Word} {k : Kernel}
    (boot : kernelMain image fuel map (.loaded frameBitmap mem) = some (.ok k)) :
    Owned k ∧ Ample (2 * (absentPages k.mem).card + 2) k.pmm ∧
      ∀ table ∈ k.tableFrames, table < identityLimit := by
  obtain ⟨t, init, -⟩ := kernelMain_eq_some_iff.mp boot
  have ample : Ample (8194 + 32) (bootReservations image t) :=
    (ample_of_initFromMap init).mono (by decide)
  obtain ⟨owned, enough⟩ := owned_of_kernelMain init ample boot
  have pages : (absentPages k.mem).card ≤ 4096 :=
    (Finset.card_filter_le _ _).trans (by rw [Nat.card_Ico])
  refine ⟨owned, enough.mono (by omega), ?_⟩
  refine kernelMain_induction (fun k => ∀ table ∈ k.tableFrames, table < identityLimit) init
    (ample.mono (by decide)) boot ?_ fun off _ k next owned ample low ran =>
      low_of_mapStackPage owned ample low ran
  exact fun table member => absurd member List.not_mem_nil

/-! ## Page tables along a run -/

/-- A run with a stronger condition is a run. -/
theorem FaultRun.mono {permitted weaker : Kernel → Word → Prop} {start : Kernel}
    {machine : Machine Kernel} (run : FaultRun permitted start machine)
    (weaken : ∀ k addr, permitted k addr → weaker k addr) : FaultRun weaker start machine := by
  induction run with
  | booted => exact .booted
  | fault before addr frame permits ih => exact ih.fault addr frame (weaken _ addr permits)

section Run

variable {start : Kernel}

/-- One more fault in the heap, after a run of such faults from a booted kernel. -/
theorem tablesLow_fault_iff (owned : Owned start)
    (ample : Ample (2 * (absentPages start.mem).card + 2) start.pmm) {k : Kernel}
    (run : FaultRun HeapFault start (.ok k)) {addr : Word} (heap : InHeap addr)
    (frame : PageFaultStack) :
    TablesLow (pageFaultHandler addr frame k).state ↔ TablesLow k ∧ TableFrameLow k addr := by
  obtain ⟨before, amples⟩ := heapRun_owned run owned ample
  have ownedBefore : Owned k := before
  have two : Ample 2 k.pmm := (amples k rfl).mono (by omega)
  rw [(ownedBefore.pageFaultHandler two addr frame).tablesLow_iff_frames, ownedBefore.tablesLow_iff_frames]
  exact tableFrames_low_iff ownedBefore two heap frame

end Run

/-- **The page tables stay low exactly along the runs in which every fault that needs a
table finds the second free frame low.** -/
theorem tablesLow_iff {image : KernelImage} {fuel : ℕ} {map : List E820Entry}
    {frameBitmap : ℕ → BitVec 8} {mem : Word → Word} {k : Kernel}
    (boot : kernelMain image fuel map (.loaded frameBitmap mem) = some (.ok k))
    {machine : Machine Kernel} (run : FaultRun HeapFault k machine) :
    TablesLow machine.state ↔
      FaultRun (fun k addr => HeapFault k addr ∧ TableFrameLow k addr) k machine := by
  obtain ⟨owned, ample, low⟩ := booted boot
  constructor
  · intro tablesLow
    induction run with
    | booted => exact .booted
    | fault before addr frame permits ih =>
        obtain ⟨lowBefore, lowTable⟩ :=
          (tablesLow_fault_iff owned ample before permits.1 frame).mp tablesLow
        exact (ih lowBefore).fault addr frame ⟨permits, lowTable⟩
  · intro good
    clear run
    induction good with
    | booted => exact owned.tablesLow_iff_frames.mpr low
    | fault before addr frame permits ih =>
        have heapRun := before.mono fun k addr permits => permits.1
        exact (tablesLow_fault_iff owned ample heapRun permits.1.1 frame).mpr ⟨ih, permits.2⟩

/-- The second free frame of a packed allocator. -/
theorem Packed.secondFree_eq {next second : ℕ} {s : Pmm} (packed : Packed next s)
    (room : next + 1 < s.totalFrames.toNat) (free : SecondFree s second) : second = next + 1 := by
  obtain ⟨-, after⟩ := packed.alloc (by omega)
  obtain ⟨found, -⟩ := after.alloc (by rw [totalFrames_pmmAllocFrame]; exact room)
  obtain ⟨-, -, foundSecond⟩ := secondFree_iff.mp free
  exact Option.some.inj (foundSecond.symm.trans found)

/-- On the roomy map the first fault in the heap gets a low table. -/
theorem tablesLow_roomyMap :
    ∃ k machine,
      kernelMain sampleImage (2 ^ 20 + 1) roomyMap (.loaded (fun _ => 0) fun _ => 0) = some (.ok k) ∧
      FaultRun HeapFault k machine ∧ machine = pageFaultHandler 0xC1001234 zeroStack k ∧
      TablesLow machine.state := by
  obtain ⟨t, k, -, -, boot, packed, room, absent⟩ := kernelMain_roomyMap
  have heapFault : HeapFault k 0xC1001234 := ⟨by decide, notPresent_of_absent absent⟩
  have lowTable : TableFrameLow k 0xC1001234 := by
    intro _ second free
    rw [packed.secondFree_eq (by omega) free]
    decide
  have run : FaultRun HeapFault k (pageFaultHandler 0xC1001234 zeroStack k) :=
    FaultRun.booted.fault 0xC1001234 zeroStack heapFault
  refine ⟨k, _, boot, run, rfl, (tablesLow_iff boot run).mpr ?_⟩
  exact FaultRun.booted.fault 0xC1001234 zeroStack ⟨heapFault, lowTable⟩

/-- Memory from frame 1005 on, 1030 frames of it. -/
def crossingMap : List E820Entry :=
  [{ base := 0x3ED000, length := 0x406000, type := e820TypeAvailable }]

/-- Boot takes the frames 1005 to 1022. The first fault in the heap takes frame 1023 for
the data and then frame 1024, at `0x400000`, for a page table. -/
theorem high_table_crossingMap :
    ∃ k machine,
      kernelMain sampleImage (2 ^ 20 + 1) crossingMap (.loaded (fun _ => 0) fun _ => 0) =
        some (.ok k) ∧
      FaultRun HeapFault k machine ∧ machine = pageFaultHandler 0xC1001234 zeroStack k ∧
      0x400000 ∈ machine.state.tableFrames := by
  obtain ⟨t, init⟩ := exists_initFromMap crossingMap (by decide) (fun _ => 0)
  obtain ⟨total, top, packed⟩ := (initialized_of_pmmInit init).2.packed_of_region sampleImage
    (show (parseAndPrintE820Map crossingMap .empty).regions = [_] from rfl)
    (show 256 ≤ 1005 by decide) (show _ = 1005 * 4096 from rfl)
    (show _ = (1005 + 1030) * 4096 from rfl)
  obtain ⟨k, boot, packedBoot, totalBoot, -, unlinked⟩ :=
    kernelMain_packed init packed (by decide) (by omega) (by decide) (fun _ => 0)
  have absent : tableAt k.mem (pdirIndex 0xC1001234) = none :=
    unlinked _ (by decide) (by decide) (by decide)
  have heapFault : HeapFault k 0xC1001234 := ⟨by decide, notPresent_of_absent absent⟩
  have room : 1023 + 1 < k.pmm.totalFrames.toNat := by
    rw [totalBoot]
    omega
  have handled := pageFaultHandler_heap heapFault.1 zeroStack k
  obtain ⟨stopped, frames⟩ := mapNewFrame_packed_high
    "Out of memory: Unable to allocate frame for page fault at address 0x%x" [0xC1001234] packedBoot
    room (by decide) (by decide) absent
  refine ⟨k, _, boot, FaultRun.booted.fault 0xC1001234 zeroStack heapFault, rfl, ?_⟩
  rw [handled, stopped, Machine.state_error, frames]
  exact List.mem_cons_self

end KernelV.Memory
