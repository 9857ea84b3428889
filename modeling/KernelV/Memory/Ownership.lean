import KernelV.Library.Ownership
import KernelV.Memory.AddressSpace
import KernelV.Memory.Boot

/-!
# Owners of physical frames

After boot a frame is in use for one of two things: as a page table, or behind a
present page from 4 MiB on. The allocator's bitmap knows nothing of this. What makes
it safe is that every frame in use has its bit set and lies above the first
megabyte, so a frame handed out next is in use for nothing (`Owned`).

`pagingMapPage` given a frame that is taken and unused keeps this, whether it sets
an entry, links a second frame as a table, or stops the machine
(`Owned.pagingMapPage`). Boot and every page fault are sequences of such calls, so no
frame ever has two owners (`frames_have_one_owner`).

The allocator searches up to a count that overlapping regions may push beyond the
number of frames there are. `Ample` says that the next allocations stay inside.
-/

set_option autoImplicit false

namespace KernelV.Memory

open Library

/-! ## Allocations that name a frame -/

/-- The free frames among all there are. -/
def freeFrames (s : Pmm) : Finset ℕ := (Finset.Ico 1 (2 ^ 20)).filter fun frame => s.isUsed frame = false

/-- The next allocations, as many as `rounds`, return frames below `2 ^ 20` or
nothing. -/
def Ample (rounds : ℕ) (s : Pmm) : Prop :=
  s.totalFrames.toNat ≤ 2 ^ 20 ∨ rounds ≤ (freeFrames s).card

namespace Ample

variable {rounds : ℕ} {s : Pmm}

theorem mono (ample : Ample rounds s) {fewer : ℕ} (le : fewer ≤ rounds) : Ample fewer s :=
  ample.imp_right le.trans

theorem nextFrame_lt (ample : Ample (rounds + 1) s) {frame : ℕ} (found : s.nextFrame = some frame) :
    frame < 2 ^ 20 := by
  obtain ⟨-, below, -, earlier⟩ := Pmm.nextFrame_eq_some_iff.mp found
  rcases ample with few | many
  · exact below.trans_le few
  · by_contra high
    obtain ⟨free, member⟩ := Finset.card_pos.mp (Nat.lt_of_lt_of_le (Nat.succ_pos rounds) many)
    obtain ⟨inRange, unused⟩ := Finset.mem_filter.mp member
    obtain ⟨positive, small⟩ := Finset.mem_Ico.mp inRange
    rw [earlier free positive (by omega)] at unused
    exact absurd unused (by decide)

/-- Setting bits that are set already changes nothing. -/
theorem marks {frames accessed : List ℕ} {t : Pmm} (ample : Ample rounds s)
    (marks : Marks frames accessed s t) (used : ∀ frame ∈ frames, s.isUsed frame = true) :
    Ample rounds t := by
  have same : freeFrames t = freeFrames s := by
    refine Finset.filter_congr fun frame _ => ?_
    rw [marks.isUsed_eq used]
  rw [Ample, marks.totalFrames, same]
  exact ample

theorem alloc (ample : Ample (rounds + 1) s) : Ample rounds (pmmAllocFrame s).2 := by
  rcases pmmAllocFrame_cases s with ⟨-, -, marks⟩ | ⟨frame, -, -, marks⟩
  · exact (ample.mono (Nat.le_succ rounds)).marks marks (by simp)
  · rw [Ample, marks.totalFrames]
    refine ample.imp_right fun many => ?_
    have rest : (freeFrames s).erase frame ⊆ freeFrames (pmmAllocFrame s).2 := by
      intro other member
      obtain ⟨different, member⟩ := Finset.mem_erase.mp member
      obtain ⟨inRange, unused⟩ := Finset.mem_filter.mp member
      refine Finset.mem_filter.mpr ⟨inRange, ?_⟩
      rw [marks.isUsed, unused]
      simpa using different
    calc rounds ≤ (freeFrames s).card - 1 := by omega
      _ ≤ ((freeFrames s).erase frame).card := Finset.pred_card_le_card_erase
      _ ≤ (freeFrames (pmmAllocFrame s).2).card := Finset.card_le_card rest

theorem allocRounds {more : ℕ} (ample : Ample (rounds + more) s) :
    Ample rounds (allocRounds more s) := by
  induction more generalizing rounds with
  | zero => exact ample
  | succ more ih =>
      have earlier : Ample (rounds + 1) (Memory.allocRounds more s) := ih (ample.mono (by omega))
      rw [allocRounds_succ]
      exact earlier.alloc

end Ample

/-! ## Owners -/

/-- What a frame can be in use for. -/
inductive Owner where
  | table (index : ℕ)
  | page (number : ℕ)

/-- The uses of frames. The first table is the kernel's own, and so are the pages
below 4 MiB. -/
def Owns (mem : Word → Word) : Owner → Word → Prop
  | .table index, frame => index < pageEntries ∧ index ≠ 0 ∧ tableAt mem index = some frame
  | .page number, frame => ∃ addr entry, identityLimit ≤ addr ∧ pageNumber addr = number ∧
      walk mem addr = some entry ∧ entryFrame entry = frame

/-- A frame above the first megabyte with its bit set. -/
def Taken (s : Pmm) (frame : Word) : Prop :=
  0x100000 ≤ frame.toNat ∧ s.isUsed (frame.toNat / 4096) = true

theorem Taken.marks {s t : Pmm} {frames accessed : List ℕ} (marks : Marks frames accessed s t)
    (frame : Word) (taken : Taken s frame) : Taken t frame :=
  ⟨taken.1, marks.mono taken.2⟩

/-- Every frame in use is taken and has one owner. -/
structure Owned (k : Kernel) : Prop where
  normal : k.panikState.mode = .normal
  apart : TablesApart k.mem
  identity : ∀ addr < identityLimit, entryAt k.mem addr = some (identityEntry (pageNumber addr))
  low : ∀ frame < 256, k.pmm.isUsed frame = true
  exclusive : Exclusive (Owns k.mem) (Taken k.pmm)

/-- Setting more bits keeps every owner. -/
theorem Owned.marks {k next : Kernel} (owned : Owned k) {frames accessed : List ℕ}
    (marks : Marks frames accessed k.pmm next.pmm) (mem : next.mem = k.mem)
    (normal : next.panikState.mode = .normal) : Owned next where
  normal := normal
  apart := mem ▸ owned.apart
  identity := mem ▸ owned.identity
  low frame below := marks.mono (owned.low frame below)
  exclusive := by
    rw [mem]
    exact ⟨fun owner frame held => Taken.marks marks frame (owned.exclusive.taken owner frame held),
      owned.exclusive.unique⟩

/-- A frame that has been taken and is in use for nothing. -/
structure Spare (k : Kernel) (frame : Word) : Prop where
  aligned : 4096 ∣ frame.toNat
  taken : Taken k.pmm frame
  unowned : ∀ owner, ¬ Owns k.mem owner frame

/-- What the next allocation of an owned kernel returns. -/
theorem Owned.nextFrame {k : Kernel} (owned : Owned k) {rounds : ℕ} (ample : Ample (rounds + 1) k.pmm)
    {frame : ℕ} (found : k.pmm.nextFrame = some frame) :
    256 ≤ frame ∧ (BitVec.ofNat 32 frame * pageSize).toNat = frame * 4096 ∧
      ∀ owner, ¬ Owns k.mem owner (BitVec.ofNat 32 frame * pageSize) := by
  obtain ⟨positive, below, free, -⟩ := Pmm.nextFrame_eq_some_iff.mp found
  have address := toNat_frameAddr (ample.nextFrame_lt found)
  refine ⟨?_, address, fun owner held => ?_⟩
  · by_contra small
    rw [owned.low frame (by omega)] at free
    exact absurd free (by decide)
  · have used := (owned.exclusive.taken owner _ held).2
    rw [address, Nat.mul_div_cancel _ (by decide), free] at used
    exact absurd used (by decide)

/-- An allocation from an owned kernel fails or gives a spare frame. -/
theorem Owned.alloc {k next : Kernel} (owned : Owned k) {rounds : ℕ} (ample : Ample (rounds + 1) k.pmm)
    (pmm : next.pmm = (pmmAllocFrame k.pmm).2) (mem : next.mem = k.mem)
    (normal : next.panikState.mode = .normal) :
    Owned next ∧ ((pmmAllocFrame k.pmm).1 = 0 ∨ Spare next (pmmAllocFrame k.pmm).1 ∧
      k.pmm.isUsed ((pmmAllocFrame k.pmm).1.toNat / 4096) = false) := by
  rcases pmmAllocFrame_cases k.pmm with ⟨-, zero, marks⟩ | ⟨frame, found, address, marks⟩
  · exact ⟨owned.marks (pmm ▸ marks) mem normal, .inl zero⟩
  · obtain ⟨high, value, unowned⟩ := owned.nextFrame ample found
    obtain ⟨-, -, free, -⟩ := Pmm.nextFrame_eq_some_iff.mp found
    refine ⟨owned.marks (pmm ▸ marks) mem normal, .inr ⟨⟨?_, ⟨?_, ?_⟩, ?_⟩, ?_⟩⟩
    · rw [address, value]
      exact Nat.dvd_mul_left _ _
    · rw [address, value]
      omega
    · rw [address, value, Nat.mul_div_cancel _ (by decide), pmm]
      exact marks.isUsed_of_mem (by simp)
    · rw [address, mem]
      exact unowned
    · rw [address, value, Nat.mul_div_cancel _ (by decide)]
      exact free

theorem Owned.withFrame {k : Kernel} (owned : Owned k) {rounds : ℕ}
    (ample : Ample (rounds + 1) k.pmm) :
    Owned k.withFrame ∧ ((pmmAllocFrame k.pmm).1 = 0 ∨ Spare k.withFrame (pmmAllocFrame k.pmm).1 ∧
      k.pmm.isUsed ((pmmAllocFrame k.pmm).1.toNat / 4096) = false) :=
  owned.alloc ample rfl rfl owned.normal

theorem Owned.withTableFrame {k : Kernel} (owned : Owned k) {rounds : ℕ}
    (ample : Ample (rounds + 1) k.pmm) :
    Owned k.withTableFrame ∧ ((pmmAllocFrame k.pmm).1 = 0 ∨
      Spare k.withTableFrame (pmmAllocFrame k.pmm).1 ∧
        k.pmm.isUsed ((pmmAllocFrame k.pmm).1.toNat / 4096) = false) :=
  owned.alloc ample rfl rfl owned.normal

/-! ## Mapping a page -/

section Mapping

variable {k next : Kernel} {virtualAddr : Word}

/-- The pages after one has been mapped. -/
theorem MapsPage.owns_page {mem mem' : Word → Word} {entry : Word}
    (maps : MapsPage virtualAddr entry mem mem') {number : ℕ} {frame : Word}
    (held : Owns mem' (.page number) frame) :
    Owns mem (.page number) frame ∨ number = pageNumber virtualAddr ∧ frame = entryFrame entry := by
  obtain ⟨addr, found, high, rfl, walked, rfl⟩ := held
  by_cases same : pageNumber addr = pageNumber virtualAddr
  · rw [Memory.walk, maps.mapped addr same, Option.filter_eq_some_iff, Option.some.injEq] at walked
    exact .inr ⟨same, congrArg entryFrame walked.1.symm⟩
  · rw [maps.walk addr same] at walked
    exact .inl ⟨addr, found, high, rfl, walked, rfl⟩

/-- A step that maps one page to a frame and links at most the given tables keeps
every frame owned once, provided the frames are new. -/
theorem Owned.mapsPage (owned : Owned k) {frames accessed : List ℕ}
    (marks : Marks frames accessed k.pmm next.pmm) (normal : next.panikState.mode = .normal)
    (high : identityLimit ≤ virtualAddr) {entry : Word}
    (maps : MapsPage virtualAddr entry k.mem next.mem) (tables : List (Owner × Word))
    (origin : ∀ index frame, Owns next.mem (.table index) frame →
      Owns k.mem (.table index) frame ∨ (.table index, frame) ∈ tables)
    (fresh : ∀ grant ∈ (.page (pageNumber virtualAddr), entryFrame entry) :: tables,
      Taken next.pmm grant.2 ∧ ∀ owner, ¬ Owns k.mem owner grant.2)
    (different : (entryFrame entry :: tables.map Prod.snd).Nodup) : Owned next where
  normal := normal
  apart := maps.apart
  identity addr low := by
    refine maps.kept addr (fun same => ?_) _ (owned.identity addr low)
    have bound : pageNumber virtualAddr < pageEntries := same ▸ pageNumber_lt_iff.mpr low
    exact BitVec.not_lt.mpr high (pageNumber_lt_iff.mp bound)
  low frame below := marks.mono (owned.low frame below)
  exclusive := by
    refine owned.exclusive.grant (Taken.marks marks) _ (fun owner frame held => ?_) fresh different
    cases owner with
    | table index => exact (origin index frame held).imp_right (List.mem_cons_of_mem _)
    | page number =>
        rcases maps.owns_page held with old | ⟨rfl, rfl⟩
        · exact .inl old
        · exact .inr List.mem_cons_self

/-- A spare frame inside the identity-mapped memory can become a table. -/
theorem Owned.freshTable (owned : Owned k) {table : Word} (high : 0x100000 ≤ table.toNat)
    (aligned : 4096 ∣ table.toNat) (low : table < identityLimit)
    (unowned : ∀ owner, ¬ Owns k.mem owner table) : FreshTable k.mem table := by
  refine ⟨aligned, low, ?_, fun index within linked => ?_⟩
  · rintro rfl
    exact absurd high (by decide)
  · by_cases first : index = 0
    · rw [first, owned.apart.first, Option.some.injEq] at linked
      exact absurd (linked ▸ high) (by decide)
    · exact unowned (.table index) ⟨within, first, linked⟩

/-- So can a frame that a packed allocator has not handed out yet. -/
theorem Owned.freshTable_of_packed (owned : Owned k) {next : ℕ} (packed : Packed next k.pmm)
    {frame : ℕ} (above : next ≤ frame) (counted : frame < k.pmm.totalFrames.toNat)
    (high : 256 ≤ frame) (low : frame < 1024) :
    FreshTable k.mem (BitVec.ofNat 32 frame * pageSize) := by
  have small : frame < 2 ^ 20 := by omega
  have value := toNat_frameAddr small
  refine owned.freshTable (by rw [value]; omega) (value ▸ Nat.dvd_mul_left _ _)
    ((frameAddr_lt_identityLimit_iff small).mpr low) fun owner held => ?_
  have used := (owned.exclusive.taken owner _ held).2
  rw [value, Nat.mul_div_cancel _ (by decide), packed.free frame above counted] at used
  exact absurd used (by decide)

theorem Spare.entryFrame_pageEntry {frame : Word} (spare : Spare k frame) (flags : Word) :
    entryFrame (pageEntry frame flags) = frame := by
  rw [Memory.entryFrame_pageEntry, entryFrame_of_dvd spare.aligned]

/-- A spare frame behind a page with a linked table. -/
theorem Owned.mapLinked (owned : Owned k) (high : identityLimit ≤ virtualAddr) {frame : Word}
    (spare : Spare k frame) (flags : Word) {table : Word}
    (linked : tableAt k.mem (pdirIndex virtualAddr) = some table) :
    Owned { k with mem := setEntry k.mem table (ptableIndex virtualAddr) (pageEntry frame flags) } := by
  have notDirectory := owned.apart.ne_pageDirStartAddr (pdirIndex_lt virtualAddr) linked
  refine owned.mapsPage (Marks.refl k.pmm) owned.normal high
    (mapsPage_setEntry owned.apart linked _) [] (fun index other held => ?_) ?_ ?_
  · obtain ⟨inside, notFirst, found⟩ := held
    rw [tableAt_setEntry (dvd_of_tableAt linked) notDirectory (ptableIndex_lt virtualAddr) _ inside]
      at found
    exact .inl ⟨inside, notFirst, found⟩
  · intro grant member
    rw [List.mem_singleton.mp member, spare.entryFrame_pageEntry]
    exact ⟨spare.taken, spare.unowned⟩
  · exact List.nodup_singleton _

/-- A spare frame behind a page whose table is the next frame. -/
theorem Owned.mapNew (owned : Owned k) (ample : Ample 1 k.pmm) (high : identityLimit ≤ virtualAddr)
    {frame : Word} (spare : Spare k frame) (flags : Word)
    (absent : tableAt k.mem (pdirIndex virtualAddr) = none) (success : (pmmAllocFrame k.pmm).1 ≠ 0)
    (low : (pmmAllocFrame k.pmm).1 < identityLimit) :
    Owned { k.withTableFrame with
              mem := setEntry (linkTable k.mem (pdirIndex virtualAddr) (pmmAllocFrame k.pmm).1)
                (pmmAllocFrame k.pmm).1 (ptableIndex virtualAddr) (pageEntry frame flags) } := by
  obtain ⟨frames, accessed, marks⟩ := exists_marks_pmmAllocFrame k.pmm
  obtain ⟨-, failure | ⟨table, unused⟩⟩ := owned.withTableFrame ample
  · exact absurd failure success
  have fresh := owned.freshTable table.taken.1 table.aligned low table.unowned
  have mapped := spare.entryFrame_pageEntry flags
  refine owned.mapsPage marks owned.normal high (mapsPage_linkTable owned.apart fresh absent _)
    [(.table (pdirIndex virtualAddr), (pmmAllocFrame k.pmm).1)] (fun index other held => ?_) ?_ ?_
  · obtain ⟨inside, notFirst, found⟩ := held
    rw [tableAt_setEntry table.aligned fresh.notDirectory (ptableIndex_lt virtualAddr) _ inside,
      tableAt_linkTable table.aligned fresh.notDirectory (pdirIndex_lt virtualAddr) inside] at found
    split at found
    · rename_i same
      rw [same, ← Option.some.inj found]
      exact .inr List.mem_cons_self
    · exact .inl ⟨inside, notFirst, found⟩
  · intro grant member
    rcases List.mem_cons.mp member with rfl | member
    · rw [mapped]
      exact ⟨Taken.marks marks frame spare.taken, spare.unowned⟩
    · rw [List.mem_singleton.mp member]
      exact ⟨table.taken, table.unowned⟩
  · rw [mapped]
    refine List.nodup_cons.mpr ⟨fun member => ?_, List.nodup_singleton _⟩
    -- The data frame has its bit set before the table frame is looked for.
    have same : frame = (pmmAllocFrame k.pmm).1 := List.mem_singleton.mp member
    rw [← same, spare.taken.2] at unused
    exact absurd unused (by decide)

/-- **`paging_map_page` with a spare frame keeps every frame owned once**, also when
it stops the machine. -/
theorem Owned.pagingMapPage (owned : Owned k) (ample : Ample 1 k.pmm)
    (high : identityLimit ≤ virtualAddr) {frame : Word} (spare : Spare k frame) (flags : Word) :
    Owned (pagingMapPage virtualAddr frame flags k).state := by
  rcases pagingMapPage_cases frame flags owned.apart owned.normal with
    ⟨table, linked, result⟩ | ⟨absent, ⟨panikState, normal, result⟩ | ⟨success, low, result⟩⟩
  · rw [result, Machine.state_ok]
    exact owned.mapLinked high spare flags linked
  · obtain ⟨frames, accessed, marks⟩ := exists_marks_pmmAllocFrame k.pmm
    rw [result, Machine.state_error]
    exact owned.marks marks rfl normal
  · rw [result, Machine.state_ok]
    exact owned.mapNew ample high spare flags absent success low

/-- `paging_map_page` allocates at most once. -/
theorem pmm_pagingMapPage (owned : Owned k) (physicalAddr flags : Word) :
    ∃ rounds ≤ 1, (pagingMapPage virtualAddr physicalAddr flags k).state.pmm =
      allocRounds rounds k.pmm := by
  rcases pagingMapPage_cases physicalAddr flags owned.apart owned.normal with
    ⟨table, -, result⟩ | ⟨-, ⟨panikState, -, result⟩ | ⟨-, -, result⟩⟩
  · exact ⟨0, by decide, by rw [result]; rfl⟩
  · exact ⟨1, le_rfl, by rw [result]; rfl⟩
  · exact ⟨1, le_rfl, by rw [result]; rfl⟩

/-- **Mapping a new frame keeps every frame owned once.** -/
theorem Owned.mapNewFrame (owned : Owned k) (ample : Ample 2 k.pmm)
    (high : identityLimit ≤ virtualAddr) (format : String) (arguments : List Word) :
    Owned (mapNewFrame virtualAddr format arguments k).state := by
  obtain ⟨ownedNext, frame⟩ := owned.withFrame ample
  by_cases failure : (pmmAllocFrame k.pmm).1 = 0
  · obtain ⟨panikState, normal, result⟩ :=
      mapNewFrame_exhausted virtualAddr format arguments owned.normal failure
    rw [result, Machine.state_error]
    exact ownedNext.marks (Marks.refl _) rfl normal
  · rw [mapNewFrame_success virtualAddr format arguments failure]
    rcases frame with zero | ⟨spare, -⟩
    · exact absurd zero failure
    · exact ownedNext.pagingMapPage ample.alloc high spare _

/-- Mapping a new frame allocates once or twice. -/
theorem pmm_mapNewFrame (owned : Owned k) (ample : Ample 2 k.pmm) (format : String)
    (arguments : List Word) :
    ∃ rounds ≤ 1, (mapNewFrame virtualAddr format arguments k).state.pmm =
      allocRounds rounds (pmmAllocFrame k.pmm).2 := by
  obtain ⟨ownedNext, -⟩ := owned.withFrame ample
  by_cases failure : (pmmAllocFrame k.pmm).1 = 0
  · obtain ⟨panikState, -, result⟩ :=
      mapNewFrame_exhausted virtualAddr format arguments owned.normal failure
    exact ⟨0, by decide, by rw [result]; rfl⟩
  · rw [mapNewFrame_success virtualAddr format arguments failure]
    exact pmm_pagingMapPage ownedNext (pmmAllocFrame k.pmm).1 (pagePresent ||| pageWrite)

theorem Ample.mapNewFrame {rounds : ℕ} (ample : Ample (rounds + 2) k.pmm) (owned : Owned k)
    (format : String) (arguments : List Word) :
    Ample rounds (mapNewFrame virtualAddr format arguments k).state.pmm := by
  have two : Ample 2 k.pmm := ample.mono (by omega)
  obtain ⟨more, few, pmm⟩ := pmm_mapNewFrame owned two format arguments
  rw [pmm]
  exact allocRounds (ample.alloc.mono (by omega))

/-- Owners are read off the directory and the linked tables. -/
theorem SameTables.owns_eq {mem mem' : Word → Word} (same : SameTables mem mem') :
    Owns mem' = Owns mem := by
  funext owner frame
  cases owner with
  | table index => exact propext (and_congr_right fun inside => by rw [same.tableAt_eq inside])
  | page number => simp only [Owns, same.walk_eq]

theorem Owned.sameTables (owned : Owned k) {mem : Word → Word} (same : SameTables k.mem mem) :
    Owned { k with mem := mem } := by
  refine ⟨owned.normal, ⟨?_, ?_, ?_, ?_⟩, ?_, owned.low, ?_⟩
  · exact (same.tableAt_eq (by decide)).trans owned.apart.first
  · intro index within table
    rw [same.tableAt_eq within]
    exact owned.apart.low index within table
  · intro index within
    rw [same.tableAt_eq within]
    exact owned.apart.notDirectory index within
  · intro index within other withinOther table
    rw [same.tableAt_eq within, same.tableAt_eq withinOther]
    exact owned.apart.distinct index within other withinOther table
  · intro addr
    rw [same.entryAt_eq]
    exact owned.identity addr
  · rw [same.owns_eq]
    exact owned.exclusive

/-- The word at address 0 belongs to no paging structure. -/
theorem Owned.sameTables_storeZero (owned : Owned k) (value : Word) :
    SameTables k.mem (Function.update k.mem 0 value) := by
  have place : entryAddr 0 0 = 0 := by decide
  have aligned : 4096 ∣ (0 : Word).toNat := by decide
  have within : 0 < pageEntries := by decide
  rw [← place]
  refine ⟨fun index inside => ?_, fun index inside table linked position inTable => ?_⟩
  · rw [update_entryAddr aligned dvd_pageDirStartAddr within inside, if_neg]
    rintro ⟨zero, -⟩
    exact absurd zero (by decide)
  · rw [update_entryAddr aligned (dvd_of_tableAt linked) within inTable, if_neg]
    rintro ⟨rfl, -⟩
    by_cases first : index = 0
    · rw [first, owned.apart.first, Option.some.injEq] at linked
      exact absurd linked (by decide)
    · have taken := owned.exclusive.taken (.table index) 0 ⟨inside, first, linked⟩
      exact absurd taken.1 (by decide)

/-- **Every page fault keeps every frame owned once.** -/
theorem Owned.pageFaultHandler (owned : Owned k) (ample : Ample 2 k.pmm) (addr : Word)
    (frame : PageFaultStack) : Owned (pageFaultHandler addr frame k).state := by
  rcases pageFaultHandler_cases addr frame k with
    ⟨-, high, format, arguments, result⟩ | ⟨-, result | ⟨physical, translated, result⟩⟩
  · rw [result]
    exact owned.mapNewFrame ample high format arguments
  · rw [result, Machine.state_error]
    exact owned
  · have identity := translate_of_identityEntry (owned.identity 0 (by decide))
    rw [identity, Option.some.injEq] at translated
    rw [result, ← translated, Machine.state_error]
    exact owned.sameTables (owned.sameTables_storeZero 123)

/-- A page fault allocates at most twice. -/
theorem Ample.pageFaultHandler {rounds : ℕ} (ample : Ample (rounds + 2) k.pmm) (owned : Owned k)
    (addr : Word) (frame : PageFaultStack) :
    Ample rounds (pageFaultHandler addr frame k).state.pmm := by
  have fewer : Ample rounds k.pmm := ample.mono (by omega)
  rcases pageFaultHandler_cases addr frame k with
    ⟨-, -, format, arguments, result⟩ | ⟨-, result | ⟨physical, -, result⟩⟩
  · rw [result]
    exact ample.mapNewFrame owned format arguments
  · rw [result]
    exact fewer
  · rw [result]
    exact fewer

end Mapping

/-! ## Boot -/

section Boot

variable {image : KernelImage} {pmm : Pmm} {k : Kernel}

/-- Without a linked table from 4 MiB on, no frame is in use. -/
theorem not_owns_pagingInit (k : Kernel) (owner : Owner) (frame : Word) :
    ¬ Owns (pagingInit k).mem owner frame := by
  cases owner with
  | table index =>
      rintro ⟨within, notFirst, linked⟩
      rw [tableAt_pagingInit k within, if_neg notFirst] at linked
      exact Option.some_ne_none _ linked.symm
  | page number =>
      rintro ⟨addr, entry, high, -, walked, -⟩
      have notLow : ¬ pageNumber addr < pageEntries := fun low =>
        BitVec.not_lt.mpr high (pageNumber_lt_iff.mp low)
      have unmapped := (refines_pagingInit k).unmapped addr (if_neg notLow)
      exact Option.some_ne_none _ (walked.symm.trans unmapped)

/-- Two allocations in a row. -/
theorem allocRounds_two (s : Pmm) : allocRounds 2 s = (pmmAllocFrame (pmmAllocFrame s).2).2 := rfl

/-- The paging structures of a booting kernel own nothing yet. -/
theorem owned_setupPaging (small : pmm.maxFrameIdx.toNat < 2 ^ 20)
    (normal : k.panikState.mode = .normal) : Owned (setupPaging image pmm k) where
  normal := normal
  apart := tablesApart_pagingInit _
  identity addr low := (refines_pagingInit _).mapped addr _ (if_pos (pageNumber_lt_iff.mpr low))
  low frame below := by
    rw [pmm_setupPaging, ← allocRounds_two]
    refine (marks_pmmReserveMemoryRegion image .pageTable _).mono ?_
    refine isUsed_allocRounds_of_isUsed 2 (s := bootReservations image pmm) ?_
    rw [isUsed_bootReservations small, decide_eq_true below]
    rfl
  exclusive := ⟨fun owner frame held => absurd held (not_owns_pagingInit _ owner frame),
    fun owner _ frame held _ => absurd held (not_owns_pagingInit _ owner frame)⟩

theorem ample_setupPaging {rounds : ℕ} (small : pmm.maxFrameIdx.toNat < 2 ^ 20)
    (ample : Ample (rounds + 2) (bootReservations image pmm)) :
    Ample rounds (setupPaging image pmm k).pmm := by
  have taken : Ample rounds (allocRounds 2 (bootReservations image pmm)) := ample.allocRounds
  rw [pmm_setupPaging, ← allocRounds_two]
  refine taken.marks (marks_pmmReserveMemoryRegion image .pageTable _) fun frame member => ?_
  refine isUsed_allocRounds_of_isUsed 2 ?_
  rw [isUsed_bootReservations small, decide_eq_true (bounds_of_mem_reservedFrames member).2]
  rfl

/-- One page of the stack mapped. -/
theorem Owned.mapStackPage (owned : Owned k) {rounds : ℕ} (ample : Ample (rounds + 2) k.pmm)
    {off : Word} (high : identityLimit ≤ kernelStackBottomVirt + off) :
    Owned (mapStackPage off k).state ∧ Ample rounds (mapStackPage off k).state.pmm := by
  have two : Ample 2 k.pmm := ample.mono (by omega)
  have ownedNext := owned.mapNewFrame two high "Stack frame allocation failed" []
  have ampleNext : Ample rounds (Memory.mapNewFrame (kernelStackBottomVirt + off)
      "Stack frame allocation failed" [] k).state.pmm := ample.mapNewFrame owned _ _
  obtain ⟨more, -, pmm⟩ : ∃ more ≤ 1, (Memory.mapNewFrame (kernelStackBottomVirt + off)
      "Stack frame allocation failed" [] k).state.pmm = allocRounds more (pmmAllocFrame k.pmm).2 :=
    pmm_mapNewFrame owned two _ _
  rw [mapStackPage_eq]
  cases result : Memory.mapNewFrame (kernelStackBottomVirt + off) "Stack frame allocation failed" [] k
    with
  | error stopped =>
      rw [result] at ownedNext ampleNext
      exact ⟨ownedNext, ampleNext⟩
  | ok next =>
      rw [result] at ownedNext ampleNext pmm
      have marks := marks_pmmSetFrameBitmap (pmmAllocFrame k.pmm).1
        ((pmmAllocFrame k.pmm).1 + pageSize) next.pmm
      refine ⟨ownedNext.marks marks rfl ownedNext.normal, ampleNext.marks marks fun frame member => ?_⟩
      -- The bit was set when the frame was allocated.
      obtain ⟨-, zero | ⟨spare, -⟩⟩ := owned.withFrame two
      · rw [zero] at member
        rw [eq_of_mem_framesBetween (by decide) member]
        exact ownedNext.low _ (by decide)
      · rw [eq_of_mem_framesBetween spare.aligned member]
        rw [pmm]
        exact isUsed_allocRounds_of_isUsed more spare.taken.2

/-- Any number of stack pages mapped, up to the one that stops the machine. -/
theorem owned_foldl_mapStackPage (offs : List Word) {machine : Machine Kernel} {rounds : ℕ}
    (owned : Owned machine.state) (ample : Ample (rounds + 2 * offs.length) machine.state.pmm)
    (high : ∀ off ∈ offs, identityLimit ≤ kernelStackBottomVirt + off) :
    Owned (offs.foldl (fun machine off => machine.bind (mapStackPage off)) machine).state ∧
      Ample rounds
        (offs.foldl (fun machine off => machine.bind (mapStackPage off)) machine).state.pmm := by
  induction offs generalizing machine with
  | nil => exact ⟨owned, ample⟩
  | cons off offs ih =>
      rw [List.length_cons] at ample
      have highRest : ∀ off ∈ offs, identityLimit ≤ kernelStackBottomVirt + off := fun off member =>
        high off (List.mem_cons_of_mem _ member)
      rw [List.foldl_cons]
      cases machine with
      | error stopped => exact ih owned (ample.mono (by omega)) highRest
      | ok k =>
          have two : Ample (rounds + 2 * offs.length + 2) k.pmm := ample.mono (by omega)
          obtain ⟨ownedNext, ampleNext⟩ := owned.mapStackPage two (high off List.mem_cons_self)
          exact ih ownedNext ampleNext highRest

theorem foldl_mapStackPage_error (offs : List Word) (stopped : Kernel) :
    offs.foldl (fun (machine : Machine Kernel) off => machine.bind (mapStackPage off))
      (.error stopped) = .error stopped := by
  induction offs with
  | nil => rfl
  | cons off offs ih => exact ih

/-- What every stack page mapped while the machine goes on keeps, all of them keep. -/
theorem foldl_mapStackPage_induction (kept : Kernel → Prop) (offs : List Word) {last : Kernel}
    (step : ∀ off ∈ offs, ∀ k next, Owned k → Ample 2 k.pmm → kept k →
      mapStackPage off k = .ok next → kept next)
    (owned : Owned k) (ample : Ample (2 * offs.length) k.pmm)
    (high : ∀ off ∈ offs, identityLimit ≤ kernelStackBottomVirt + off) (start : kept k)
    (ended : offs.foldl (fun (machine : Machine Kernel) off => machine.bind (mapStackPage off)) (.ok k) =
      .ok last) : kept last := by
  induction offs generalizing k with
  | nil =>
      cases ended
      exact start
  | cons off offs ih =>
      rw [List.length_cons] at ample
      have more : Ample (2 * offs.length + 2) k.pmm := ample.mono (by omega)
      have two : Ample 2 k.pmm := more.mono (by omega)
      obtain ⟨ownedNext, ampleNext⟩ := owned.mapStackPage more (high off List.mem_cons_self)
      rw [List.foldl_cons] at ended
      change offs.foldl _ (mapStackPage off k) = _ at ended
      cases ran : mapStackPage off k with
      | error stopped =>
          rw [ran, foldl_mapStackPage_error] at ended
          cases ended
      | ok next =>
          rw [ran] at ended ownedNext ampleNext
          refine ih (fun off member => step off (List.mem_cons_of_mem _ member)) ownedNext ampleNext
            (fun off member => high off (List.mem_cons_of_mem _ member)) ?_ ended
          exact step off List.mem_cons_self k next owned two start ran

/-- What the paging structures give and every stack page keeps, boot gives. -/
theorem kernelMain_induction (kept : Kernel → Prop) {fuel : ℕ} {map : List E820Entry}
    {frameBitmap : ℕ → BitVec 8} {mem : Word → Word} {t : Pmm}
    (init : initFromMap fuel map frameBitmap = some t) (ample : Ample 32 (bootReservations image t))
    {last : Kernel} (boot : kernelMain image fuel map (.loaded frameBitmap mem) = some (.ok last))
    (start : kept (setupPaging image t (.loaded frameBitmap mem)))
    (step : ∀ off ∈ stackOffsets, ∀ k next, Owned k → Ample 2 k.pmm → kept k →
      mapStackPage off k = .ok next → kept next) : kept last := by
  obtain ⟨pmm, initialized, ended⟩ := kernelMain_eq_some_iff.mp boot
  obtain rfl : t = pmm := Option.some.inj (init.symm.trans initialized)
  have small := (initialized_of_pmmInit init).2.maxFrameIdx_lt
  have ready : Ample (2 * stackOffsets.length) (setupPaging image t (.loaded frameBitmap mem)).pmm :=
    ample_setupPaging small ample
  exact foldl_mapStackPage_induction kept stackOffsets step (owned_setupPaging small rfl) ready
    le_stackAddr start ended.symm

/-- **Boot keeps every frame owned once**, however far the loop over the stack has come. -/
theorem owned_foldl_setupPaging {fuel : ℕ} {map : List E820Entry} {frameBitmap : ℕ → BitVec 8}
    {mem : Word → Word} {t : Pmm} (init : initFromMap fuel map frameBitmap = some t) {rounds : ℕ}
    (ample : Ample (rounds + 32) (bootReservations image t)) {mapped : List Word}
    (visits : mapped <+: stackOffsets) {machine : Machine Kernel}
    (reached : machine = mapped.foldl (fun machine off => machine.bind (mapStackPage off))
      (.ok (setupPaging image t (.loaded frameBitmap mem)))) :
    Owned machine.state ∧ Ample rounds machine.state.pmm := by
  have small := (initialized_of_pmmInit init).2.maxFrameIdx_lt
  have length : mapped.length ≤ stackOffsets.length := visits.length_le
  have enough : Ample (rounds + 2 * stackOffsets.length)
      (setupPaging image t (.loaded frameBitmap mem)).pmm := ample_setupPaging small ample
  have ready : Ample (rounds + 2 * mapped.length) (setupPaging image t (.loaded frameBitmap mem)).pmm :=
    enough.mono (by omega)
  rw [reached]
  exact owned_foldl_mapStackPage mapped (owned_setupPaging small rfl) ready fun off member =>
    le_stackAddr off (visits.subset member)

/-- **Boot leaves every frame owned once.** -/
theorem owned_of_kernelMain {fuel : ℕ} {map : List E820Entry} {frameBitmap : ℕ → BitVec 8}
    {mem : Word → Word} {t : Pmm} (init : initFromMap fuel map frameBitmap = some t) {rounds : ℕ}
    (ample : Ample (rounds + 32) (bootReservations image t)) {machine : Machine Kernel}
    (boot : kernelMain image fuel map (.loaded frameBitmap mem) = some machine) :
    Owned machine.state ∧ Ample rounds machine.state.pmm := by
  obtain ⟨pmm, initialized, reached⟩ := kernelMain_eq_some_iff.mp boot
  obtain rfl : t = pmm := Option.some.inj (init.symm.trans initialized)
  exact owned_foldl_setupPaging init ample (List.prefix_refl _) reached

/-- A count that does not exceed the highest frame keeps allocations inside. -/
theorem ample_bootReservations {fuel : ℕ} {map : List E820Entry} {frameBitmap : ℕ → BitVec 8} {t : Pmm}
    (init : initFromMap fuel map frameBitmap = some t) (count : t.totalFrames ≤ t.maxFrameIdx)
    (rounds : ℕ) : Ample rounds (bootReservations image t) := by
  have small := (initialized_of_pmmInit init).2.maxFrameIdx_lt
  rw [BitVec.le_def] at count
  refine .inl ?_
  rw [(marks_bootReservations image t).totalFrames]
  omega

end Boot

/-! ## Runs -/

/-- Faults keep every frame owned once as long as the allocator names frames. -/
theorem FaultRun.owned {permitted : Kernel → Word → Prop} {start : Kernel} {machine : Machine Kernel}
    (run : FaultRun permitted start machine) (owned : Owned start)
    (ample : ∀ rounds, Ample rounds start.pmm) :
    Owned machine.state ∧ ∀ rounds, Ample rounds machine.state.pmm := by
  induction run with
  | booted => exact ⟨owned, ample⟩
  | fault before addr frame permits ih =>
      obtain ⟨ownedBefore, ampleBefore⟩ := ih
      exact ⟨ownedBefore.pageFaultHandler (ampleBefore 2) addr frame,
        fun rounds => (ampleBefore (rounds + 2)).pageFaultHandler ownedBefore addr frame⟩

/-- **No physical frame has two owners.** In every state that faults at pages without
a present entry lead to after boot, different present pages from 4 MiB on have
different frames, and none of these frames is the page directory, a linked page
table, or part of the memory reserved at boot. -/
theorem frames_have_one_owner {image : KernelImage} {fuel : ℕ} {map : List E820Entry}
    {frameBitmap : ℕ → BitVec 8} {mem : Word → Word} {t : Pmm}
    (init : initFromMap fuel map frameBitmap = some t) (count : t.totalFrames ≤ t.maxFrameIdx)
    {k : Kernel} (boot : kernelMain image fuel map (.loaded frameBitmap mem) = some (.ok k))
    {machine : Machine Kernel} (run : FaultRun NotPresent k machine) :
    (∀ addr other entry otherEntry, identityLimit ≤ addr → identityLimit ≤ other →
        walk machine.state.mem addr = some entry → walk machine.state.mem other = some otherEntry →
          pageNumber addr ≠ pageNumber other → entryFrame entry ≠ entryFrame otherEntry) ∧
      ∀ addr entry, identityLimit ≤ addr → walk machine.state.mem addr = some entry →
        entryFrame entry ≠ pageDirStartAddr ∧
          (∀ index < pageEntries, tableAt machine.state.mem index ≠ some (entryFrame entry)) ∧
          ∀ range ∈ reservedRanges image t.maxFrameIdx, ¬ frameOverlaps (entryFrame entry) range := by
  have small := (initialized_of_pmmInit init).2.maxFrameIdx_lt
  have booted : ∀ rounds, Owned k ∧ Ample rounds k.pmm := fun rounds =>
    owned_of_kernelMain init (ample_bootReservations init count _) boot
  obtain ⟨owned, -⟩ := run.owned (booted 0).1 fun rounds => (booted rounds).2
  refine ⟨?_, ?_⟩
  · intro addr other entry otherEntry high highOther walked walkedOther different same
    have equal := owned.exclusive.unique (.page (pageNumber addr)) (.page (pageNumber other)) _
      ⟨addr, entry, high, rfl, walked, rfl⟩ ⟨other, otherEntry, highOther, rfl, walkedOther, same.symm⟩
    exact different (Owner.page.inj equal)
  · intro addr entry high walked
    have owns : Owns machine.state.mem (.page (pageNumber addr)) (entryFrame entry) :=
      ⟨addr, entry, high, rfl, walked, rfl⟩
    have taken := owned.exclusive.taken _ _ owns
    refine ⟨?_, fun index within linked => ?_, not_frameOverlaps_reservedRanges small taken.1⟩
    · intro directory
      exact absurd (directory ▸ taken.1) (by decide)
    · by_cases first : index = 0
      · rw [first, owned.apart.first, Option.some.injEq] at linked
        exact absurd (linked ▸ taken.1) (by decide)
      · have table : Owns machine.state.mem (.table index) (entryFrame entry) :=
          ⟨within, first, linked⟩
        exact Owner.noConfusion (owned.exclusive.unique _ _ _ owns table)

/-- Two megabytes of memory from 1 MiB on. -/
def roomyMap : List E820Entry := [{ base := 0x100000, length := 0x200000, type := e820TypeAvailable }]

/-- A saved frame of zeros. -/
def zeroStack : PageFaultStack := ⟨0, 0, 0, 0, 0, 0, 0, 0, 0, 0, 0, 0, 0, 0, 0, 0⟩

/-- On the roomy map boot completes and leaves the frames from 274 on free. -/
theorem kernelMain_roomyMap :
    ∃ t k, initFromMap (2 ^ 20 + 1) roomyMap (fun _ => 0) = some t ∧
      t.totalFrames ≤ t.maxFrameIdx ∧
      kernelMain sampleImage (2 ^ 20 + 1) roomyMap (.loaded (fun _ => 0) fun _ => 0) = some (.ok k) ∧
      Packed 274 k.pmm ∧ 276 < k.pmm.totalFrames.toNat ∧
      tableAt k.mem (pdirIndex 0xC1001234) = none := by
  obtain ⟨t, init⟩ := exists_initFromMap roomyMap (by decide) (fun _ => 0)
  obtain ⟨total, top, packed⟩ := (initialized_of_pmmInit init).2.packed_of_region sampleImage
    (show (parseAndPrintE820Map roomyMap .empty).regions = [_] from rfl) le_rfl
    (show _ = 256 * 4096 from rfl) (show _ = (256 + 512) * 4096 from rfl)
  obtain ⟨k, boot, packedBoot, totalBoot, -, unlinked⟩ :=
    kernelMain_packed init packed le_rfl (by omega) (by decide) (fun _ => 0)
  refine ⟨t, k, init, ?_, boot, packedBoot, ?_, unlinked _ (by decide) (by decide) (by decide)⟩
  · rw [BitVec.le_def]
    omega
  · rw [totalBoot]
    omega

/-- On the roomy map the first fault in the heap is answered with frame 274 behind a
table in frame 275. -/
theorem frames_have_one_owner_roomyMap :
    ∃ t k last, initFromMap (2 ^ 20 + 1) roomyMap (fun _ => 0) = some t ∧
      t.totalFrames ≤ t.maxFrameIdx ∧
      kernelMain sampleImage (2 ^ 20 + 1) roomyMap (.loaded (fun _ => 0) fun _ => 0) = some (.ok k) ∧
      FaultRun NotPresent k (.ok last) ∧ walk last.mem 0xC1001234 = some 0x112003 ∧
      ∀ index < pageEntries, tableAt last.mem index ≠ some 0x112000 := by
  obtain ⟨t, k, init, count, boot, packed, room, absent⟩ := kernelMain_roomyMap
  have notPresent : NotPresent k 0xC1001234 := notPresent_of_absent absent
  have owned : Owned k := (owned_of_kernelMain init (ample_bootReservations init count (0 + 32)) boot).1
  have fresh : FreshTable k.mem (BitVec.ofNat 32 275 * pageSize) :=
    owned.freshTable_of_packed packed (by decide) (by omega) (by decide) (by decide)
  have maps := mapsPage_linkTable owned.apart fresh absent
    (pageEntry (BitVec.ofNat 32 274 * pageSize) (pagePresent ||| pageWrite))
  have handled := pageFaultHandler_heap (show InHeap 0xC1001234 by decide) zeroStack k
  rw [mapNewFrame_packed_absent _ _ packed (by omega) (by decide) absent] at handled
  have run := handled ▸ FaultRun.booted.fault 0xC1001234 zeroStack notPresent
  have walked := congrArg (Option.filter isPresent) (maps.mapped 0xC1001234 rfl)
  obtain ⟨-, owner⟩ := frames_have_one_owner init count boot run
  exact ⟨t, k, _, init, count, boot, run, walked, (owner 0xC1001234 0x112003 (by decide) walked).2.1⟩

end KernelV.Memory
