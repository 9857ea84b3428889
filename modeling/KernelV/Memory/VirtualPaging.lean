import KernelV.Memory.PageFault
import KernelV.Memory.AddressSpace

/-!
# Page tables behind their own translation

Once paging is on, `paging_map_page` reads and writes the page tables through the page tables. It
uses their physical addresses, which is right as long as their frames are mapped to themselves. A
call for a page of the first 4 MiB can end that.

`pagingMapPageVirtual` is the function with every access translated. Where the directory and the
table of the call are mapped to themselves it does to the memory what `pagingMapPage` says
(`MapCall.runVirtual_cases`). For calls from 4 MiB on, with fresh frames for the new tables, that
is always so, and the two functions are equal on whole runs (`mapPagesVirtual_eq`).
-/

set_option autoImplicit false

namespace KernelV.Memory

open Library

/-! ## The code -/

/-- A load from a virtual address. Without a present entry it faults, and the machine stops. -/
def loadVirtual (addr : Word) (k : Kernel) : Machine Word :=
  match translate k.mem addr with
  | some physical => .ok (k.mem physical)
  | none => .error k

/-- The loop of `paging_map_page` that clears a new table. -/
def clearTableVirtual (table : Word) (k : Kernel) : Machine Kernel :=
  (List.range pageEntries).foldlM (fun k entry => storeVirtual (entryAddr table entry) 0 k) k

/-- The branch of `paging_map_page` for a directory entry that is not present. -/
def newPageTableVirtual (pdirIndex : ℕ) (k : Kernel) : Machine (Word × Kernel) := do
  let table := (pmmAllocFrame k.pmm).1
  let k := { k with pmm := (pmmAllocFrame k.pmm).2, tableFrames := table :: k.tableFrames }
  let k ← panikIfNull table "Out of memory: Unable to allocate frame for new page table" [] k
  let k ← clearTableVirtual table k
  let k ←
    storeVirtual (entryAddr pageDirStartAddr pdirIndex) (table ||| pagePresent ||| pageWrite) k
  return (table, k)

/-- `paging_map_page`, with paging on. -/
def pagingMapPageVirtual (virtualAddr physicalAddr flags : Word) (k : Kernel) : Machine Kernel := do
  let directoryEntry ← loadVirtual (entryAddr pageDirStartAddr (pdirIndex virtualAddr)) k
  let (table, k) ←
    if isPresent directoryEntry then .ok (entryFrame directoryEntry, k)
    else newPageTableVirtual (pdirIndex virtualAddr) k
  storeVirtual (entryAddr table (ptableIndex virtualAddr)) (pageEntry physicalAddr flags) k

namespace MapCall

/-- The call made on the kernel with paging on. -/
def runVirtual (call : MapCall) (k : Kernel) : Machine Kernel :=
  pagingMapPageVirtual call.virtualAddr call.physicalAddr call.flags k

end MapCall

/-- A sequence of calls with paging on. -/
def mapPagesVirtual : List MapCall → Kernel → Machine Kernel
  | [], k => .ok k
  | call :: calls, k => (call.runVirtual k).bind (mapPagesVirtual calls)

/-! ## Frames that are mapped to themselves -/

/-- Every word of the frame is found at its own address. -/
def SelfMapped (mem : Word → Word) (frame : Word) : Prop :=
  ∀ index < pageEntries, translate mem (entryAddr frame index) = some (entryAddr frame index)

theorem pageNumber_entryAddr {frame : Word} (aligned : 4096 ∣ frame.toNat) {index : ℕ}
    (within : index < pageEntries) : pageNumber (entryAddr frame index) = pageNumber frame := by
  have divides : 4 * pageEntries ∣ 2 ^ 32 := by decide
  have value : (entryAddr frame index).toNat = frame.toNat + 4 * index :=
    toNat_cellAddr divides (by decide) aligned within
  rw [toNat_pageNumber, toNat_pageNumber, value]
  rw [pageEntries] at within
  omega

/-- Two words decide where an address is translated to. -/
theorem translate_congr {mem mem' : Word → Word} {addr : Word}
    (directory : mem' (entryAddr pageDirStartAddr (pdirIndex addr)) =
      mem (entryAddr pageDirStartAddr (pdirIndex addr)))
    (entry : ∀ table, tableAt mem (pdirIndex addr) = some table →
      mem' (entryAddr table (ptableIndex addr)) = mem (entryAddr table (ptableIndex addr))) :
    translate mem' addr = translate mem addr := by
  have tables : tableAt mem' (pdirIndex addr) = tableAt mem (pdirIndex addr) := by
    rw [tableAt, tableAt, directory]
  have entries : entryAt mem' addr = entryAt mem addr := by
    rw [entryAt, entryAt, tables]
    cases found : tableAt mem (pdirIndex addr) with
    | none => rfl
    | some table => exact congrArg some (entry table found)
  rw [translate, translate, walk, walk, entries]

namespace SelfMapped

variable {mem mem' : Word → Word} {frame table : Word}

/-- A table links a frame that is mapped to itself. -/
theorem exists_tableAt (mapped : SelfMapped mem frame) (aligned : 4096 ∣ frame.toNat) :
    ∃ table, tableAt mem (pdirIndex frame) = some table := by
  have first : 0 < pageEntries := by decide
  have sameDirectory := (pageNumber_eq_iff.mp (pageNumber_entryAddr aligned first)).1
  have found := mapped 0 first
  cases linked : tableAt mem (pdirIndex frame) with
  | some table => exact ⟨table, rfl⟩
  | none =>
      rw [translate, walk, entryAt, sameDirectory, linked] at found
      cases found

theorem congr (mapped : SelfMapped mem frame) (aligned : 4096 ∣ frame.toNat)
    (directory : mem' (entryAddr pageDirStartAddr (pdirIndex frame)) =
      mem (entryAddr pageDirStartAddr (pdirIndex frame)))
    (entry : ∀ table, tableAt mem (pdirIndex frame) = some table →
      mem' (entryAddr table (ptableIndex frame)) = mem (entryAddr table (ptableIndex frame))) :
    SelfMapped mem' frame := by
  intro index within
  obtain ⟨sameDirectory, sameTable⟩ := pageNumber_eq_iff.mp (pageNumber_entryAddr aligned within)
  refine (translate_congr ?_ ?_).trans (mapped index within)
  · rw [sameDirectory]
    exact directory
  · rw [sameDirectory, sameTable]
    exact entry

/-- Stores to the words of a table that is not linked change no translation. -/
theorem of_unlinked (mapped : SelfMapped mem frame) (aligned : 4096 ∣ frame.toNat)
    (unlinked : UnlinkedTable mem table)
    (outside : ∀ other : Word, 4096 ∣ other.toNat → other ≠ table → ∀ index < pageEntries,
      mem' (entryAddr other index) = mem (entryAddr other index)) : SelfMapped mem' frame := by
  refine mapped.congr aligned ?_ fun other linked => ?_
  · exact outside _ dvd_pageDirStartAddr unlinked.notDirectory.symm _ (pdirIndex_lt frame)
  · refine outside other (dvd_of_tableAt linked) ?_ _ (ptableIndex_lt frame)
    rintro rfl
    exact unlinked.unlinked _ (pdirIndex_lt frame) linked

/-- The words of a new table cleared. -/
theorem clear (mapped : SelfMapped mem frame) (aligned : 4096 ∣ frame.toNat)
    (unlinked : UnlinkedTable mem table) {count : ℕ} (fits : count ≤ pageEntries) :
    SelfMapped (storeCells 4 table (fun _ => 0) count mem) frame := by
  have divides : 4 * pageEntries ∣ 2 ^ 32 := by decide
  refine mapped.of_unlinked aligned unlinked fun other alignedOther different index within => ?_
  have stored := storeCells_cellAddr divides (by decide) unlinked.aligned alignedOther fits within
    (fun _ => (0 : Word)) mem
  exact stored.trans (if_neg fun both => different both.1)

/-- A new table linked where there was none. -/
theorem linkTable (mapped : SelfMapped mem frame) (aligned : 4096 ∣ frame.toNat)
    (distinct : TablesDistinct mem) (unlinked : UnlinkedTable mem table) {index : ℕ}
    (within : index < pageEntries) (absent : tableAt mem index = none) :
    SelfMapped (linkTable mem index table) frame := by
  have cleared (other : Word) (alignedOther : 4096 ∣ other.toNat) (different : other ≠ table)
      {position : ℕ} (inside : position < pageEntries)
      (elsewhere : ¬ (other = pageDirStartAddr ∧ position = index)) :
      Memory.linkTable mem index table (entryAddr other position) =
        mem (entryAddr other position) := by
    rw [Memory.linkTable, setEntry,
      update_entryAddr dvd_pageDirStartAddr alignedOther within inside,
      if_neg elsewhere, storeCells_entryAddr unlinked.aligned alignedOther inside, if_neg different]
  obtain ⟨shared, linked⟩ := mapped.exists_tableAt aligned
  refine mapped.congr aligned ?_ fun other found => ?_
  · refine cleared _ dvd_pageDirStartAddr unlinked.notDirectory.symm (pdirIndex_lt frame) ?_
    rintro ⟨-, rfl⟩
    rw [absent] at linked
    cases linked
  · refine cleared other (dvd_of_tableAt found) ?_ (ptableIndex_lt frame) fun both => ?_
    · rintro rfl
      exact unlinked.unlinked _ (pdirIndex_lt frame) found
    · exact distinct.ne_pageDirStartAddr (pdirIndex_lt frame) found both.1

end SelfMapped

/-- A store to a word of a frame that is mapped to itself. -/
theorem storeVirtual_selfMapped {k : Kernel} {frame : Word} (mapped : SelfMapped k.mem frame)
    {index : ℕ} (within : index < pageEntries) (value : Word) :
    storeVirtual (entryAddr frame index) value k =
      .ok { k with mem := setEntry k.mem frame index value } := by
  rw [storeVirtual, mapped index within]
  rfl

/-- The directory is read where it is. -/
theorem loadVirtual_selfMapped {k : Kernel} {frame : Word} (mapped : SelfMapped k.mem frame)
    {index : ℕ} (within : index < pageEntries) :
    loadVirtual (entryAddr frame index) k = .ok (k.mem (entryAddr frame index)) := by
  rw [loadVirtual, mapped index within]

/-- **Clearing a table that is mapped to itself clears its words.** -/
theorem clearTableVirtual_eq {k : Kernel} {table : Word} (unlinked : UnlinkedTable k.mem table)
    (mapped : SelfMapped k.mem table) :
    clearTableVirtual table k =
      .ok { k with mem := storeCells 4 table (fun _ => 0) pageEntries k.mem } := by
  have passes : ∀ count ≤ pageEntries,
      (List.range count).foldlM (fun k entry => storeVirtual (entryAddr table entry) 0 k) k =
        .ok { k with mem := storeCells 4 table (fun _ => 0) count k.mem } := by
    intro count
    induction count with
    | zero => exact fun _ => rfl
    | succ count ih =>
        intro fits
        -- The words stored so far are in no table that the next store is translated through.
        have still := mapped.clear unlinked.aligned unlinked (Nat.le_of_succ_le fits)
        rw [List.range_succ, List.foldlM_append, ih (Nat.le_of_succ_le fits)]
        have pass := storeVirtual_selfMapped
          (k := { k with mem := storeCells 4 table (fun _ => 0) count k.mem }) still fits 0
        change ([count].foldlM (fun k entry => storeVirtual (entryAddr table entry) 0 k)
          { k with mem := storeCells 4 table (fun _ => 0) count k.mem } : Machine Kernel) = _
        rw [List.foldlM_cons, pass]
        rfl
  exact passes pageEntries le_rfl

/-! ## What a call does -/

section Call

variable {k : Kernel} {virtualAddr : Word} (physicalAddr flags : Word)
  (directory : SelfMapped k.mem pageDirStartAddr)
include directory

/-- With a linked table the call sets one entry. -/
theorem pagingMapPageVirtual_linked {table : Word}
    (linked : tableAt k.mem (pdirIndex virtualAddr) = some table)
    (mapped : SelfMapped k.mem table) :
    pagingMapPageVirtual virtualAddr physicalAddr flags k =
      .ok { k with mem := setEntry k.mem table (ptableIndex virtualAddr)
                            (pageEntry physicalAddr flags) } := by
  have stored := storeVirtual_selfMapped mapped (ptableIndex_lt virtualAddr)
    (pageEntry physicalAddr flags)
  simp only [tableAt, Option.ite_none_right_eq_some, Option.some.injEq] at linked
  obtain ⟨present, rfl⟩ := linked
  rw [pagingMapPageVirtual, loadVirtual_selfMapped directory (pdirIndex_lt virtualAddr)]
  simp only [present, if_true, bind, Except.bind]
  exact stored

/-- The branch for a new table clears a frame and links it. -/
theorem newPageTableVirtual_eq {index : ℕ} (within : index < pageEntries)
    (fresh : UnlinkedTable k.mem (pmmAllocFrame k.pmm).1)
    (mapped : SelfMapped k.mem (pmmAllocFrame k.pmm).1)
    (goesOn : (pmmAllocFrame k.pmm).1 = 0 → k.panikState.mode = .test) :
    ∃ panikState, ((pmmAllocFrame k.pmm).1 ≠ 0 → panikState = k.panikState) ∧
      newPageTableVirtual index k =
        .ok ((pmmAllocFrame k.pmm).1, { k.withTableFrame with
          panikState, mem := linkTable k.mem index (pmmAllocFrame k.pmm).1 }) := by
  have test : (pmmAllocFrame k.pmm).1 = 0 → k.withTableFrame.panikState.mode = .test := goesOn
  obtain ⟨panikState, -, same, checked⟩ := panikIfNull_goesOn test
    "Out of memory: Unable to allocate frame for new page table" []
  refine ⟨panikState, same, ?_⟩
  have cleared :
      clearTableVirtual (pmmAllocFrame k.pmm).1 { k.withTableFrame with panikState } = .ok _ :=
    clearTableVirtual_eq fresh mapped
  have stored := storeVirtual_selfMapped
    (k := { k.withTableFrame with
      panikState, mem := storeCells 4 (pmmAllocFrame k.pmm).1 (fun _ => 0) pageEntries k.mem })
    (directory.clear dvd_pageDirStartAddr fresh le_rfl) within
    ((pmmAllocFrame k.pmm).1 ||| pagePresent ||| pageWrite)
  simp only [Kernel.withTableFrame] at checked cleared stored
  simp only [newPageTableVirtual, checked, cleared, stored, bind, Except.bind, pure, Except.pure]
  rfl

/-- Without one it clears a new table, links it and sets an entry. -/
theorem pagingMapPageVirtual_new (absent : tableAt k.mem (pdirIndex virtualAddr) = none)
    (distinct : TablesDistinct k.mem) (fresh : UnlinkedTable k.mem (pmmAllocFrame k.pmm).1)
    (mapped : SelfMapped k.mem (pmmAllocFrame k.pmm).1)
    (goesOn : (pmmAllocFrame k.pmm).1 = 0 → k.panikState.mode = .test) :
    ∃ panikState, ((pmmAllocFrame k.pmm).1 ≠ 0 → panikState = k.panikState) ∧
      pagingMapPageVirtual virtualAddr physicalAddr flags k =
        .ok { k.withTableFrame with
                panikState
                mem := setEntry (linkTable k.mem (pdirIndex virtualAddr) (pmmAllocFrame k.pmm).1)
                  (pmmAllocFrame k.pmm).1 (ptableIndex virtualAddr)
                  (pageEntry physicalAddr flags) } := by
  have within := pdirIndex_lt virtualAddr
  obtain ⟨panikState, same, asked⟩ := newPageTableVirtual_eq directory within fresh mapped goesOn
  refine ⟨panikState, same, ?_⟩
  have entered := storeVirtual_selfMapped
    (k := { k.withTableFrame with
      panikState, mem := linkTable k.mem (pdirIndex virtualAddr) (pmmAllocFrame k.pmm).1 })
    (mapped.linkTable fresh.aligned distinct fresh within absent) (ptableIndex_lt virtualAddr)
    (pageEntry physicalAddr flags)
  simp only [tableAt, ite_eq_right_iff, reduceCtorEq, imp_false] at absent
  rw [pagingMapPageVirtual, loadVirtual_selfMapped directory within]
  simp only [absent, bind, Except.bind]
  rw [if_neg (by decide), asked]
  exact entered

end Call

namespace MapCall

/-- The call finds the directory and the table it writes at their physical addresses. A table that
it asks for is a frame that is no table yet, and it is not stopped for lack of one. -/
structure Reaches (call : MapCall) (k : Kernel) : Prop where
  directory : SelfMapped k.mem pageDirStartAddr
  linked : ∀ table, tableAt k.mem (pdirIndex call.virtualAddr) = some table → SelfMapped k.mem table
  new : tableAt k.mem (pdirIndex call.virtualAddr) = none →
    UnlinkedTable k.mem (pmmAllocFrame k.pmm).1 ∧ SelfMapped k.mem (pmmAllocFrame k.pmm).1 ∧
      ((pmmAllocFrame k.pmm).1 = 0 → k.panikState.mode = .test)

/-- **What a call does with paging on**: it sets an entry of a linked table, or links a new
one. -/
theorem runVirtual_cases {call : MapCall} {k : Kernel} (distinct : TablesDistinct k.mem)
    (reaches : call.Reaches k) :
    ∃ next table, call.runVirtual k = .ok next ∧
      (tableAt k.mem (pdirIndex call.virtualAddr) = some table ∧
          next.mem = setEntry k.mem table (ptableIndex call.virtualAddr) call.entry ∨
        tableAt k.mem (pdirIndex call.virtualAddr) = none ∧ UnlinkedTable k.mem table ∧
          next.mem = setEntry (linkTable k.mem (pdirIndex call.virtualAddr) table) table
            (ptableIndex call.virtualAddr) call.entry) := by
  cases found : tableAt k.mem (pdirIndex call.virtualAddr) with
  | some table =>
      exact ⟨_, table, pagingMapPageVirtual_linked _ _ reaches.directory found
        (reaches.linked table found), .inl ⟨rfl, rfl⟩⟩
  | none =>
      obtain ⟨fresh, mapped, goesOn⟩ := reaches.new found
      obtain ⟨panikState, -, ran⟩ := pagingMapPageVirtual_new call.physicalAddr call.flags
        reaches.directory found distinct fresh mapped goesOn
      exact ⟨_, _, ran, .inr ⟨rfl, fresh, rfl⟩⟩

end MapCall

/-- Every call of the sequence finds the directory and its table. -/
def AllReach : List MapCall → Kernel → Prop
  | [], _ => True
  | call :: calls, k => call.Reaches k ∧ ∀ next, call.runVirtual k = .ok next → AllReach calls next

/-! ## Calls from 4 MiB on -/

/-- A low frame of an unchanged identity map is mapped to itself. -/
theorem selfMapped_of_identity {mem : Word → Word}
    (identity : ∀ addr < identityLimit, entryAt mem addr = some (identityEntry (pageNumber addr)))
    {frame : Word} (aligned : 4096 ∣ frame.toNat) (low : frame < identityLimit) :
    SelfMapped mem frame := by
  intro index within
  refine translate_of_identityEntry (identity _ ?_)
  rw [← pageNumber_lt_iff, pageNumber_entryAddr aligned within]
  exact pageNumber_lt_iff.mpr low

namespace MapCall

variable {call : MapCall} {k : Kernel}

/-- With the identity map in place, a call with a fresh frame for its table reaches it, and does
with paging on what it does without. -/
theorem runVirtual_eq (apart : TablesApart k.mem)
    (identity : ∀ addr < identityLimit, entryAt k.mem addr = some (identityEntry (pageNumber addr)))
    (fresh : call.GetsFreshTable k) : call.Reaches k ∧ call.runVirtual k = call.run k := by
  have directory : SelfMapped k.mem pageDirStartAddr :=
    selfMapped_of_identity identity dvd_pageDirStartAddr (by decide)
  have linked (table : Word) (found : tableAt k.mem (pdirIndex call.virtualAddr) = some table) :
      SelfMapped k.mem table :=
    selfMapped_of_identity identity (dvd_of_tableAt found)
      (apart.low _ (pdirIndex_lt _) table found)
  have new (absent : tableAt k.mem (pdirIndex call.virtualAddr) = none) :
      UnlinkedTable k.mem (pmmAllocFrame k.pmm).1 ∧ SelfMapped k.mem (pmmAllocFrame k.pmm).1 ∧
        ((pmmAllocFrame k.pmm).1 = 0 → k.panikState.mode = .test) := by
    obtain ⟨success, table⟩ := fresh absent
    exact ⟨table.unlinkedTable, selfMapped_of_identity identity table.aligned table.low,
      fun null => absurd null success⟩
  refine ⟨⟨directory, linked, new⟩, ?_⟩
  cases found : tableAt k.mem (pdirIndex call.virtualAddr) with
  | some table =>
      have low := apart.low _ (pdirIndex_lt call.virtualAddr) table found
      exact (pagingMapPageVirtual_linked _ _ directory found (linked table found)).trans
        (pagingMapPage_linked _ _ found low).symm
  | none =>
      obtain ⟨unlinked, mapped, goesOn⟩ := new found
      obtain ⟨success, table⟩ := fresh found
      obtain ⟨panikState, same, ran⟩ := pagingMapPageVirtual_new call.physicalAddr call.flags
        directory found apart.tablesDistinct unlinked mapped goesOn
      rw [same success] at ran
      exact ran.trans (pagingMapPage_new _ _ found success table.low).symm

end MapCall

/-- **For calls from 4 MiB on, with fresh frames for the new tables, paging makes no
difference.** -/
theorem mapPagesVirtual_eq {calls : List MapCall} {k : Kernel} (apart : TablesApart k.mem)
    (identity : ∀ addr < identityLimit, entryAt k.mem addr = some (identityEntry (pageNumber addr)))
    (high : ∀ call ∈ calls, identityLimit ≤ call.virtualAddr) (fresh : AllocatesFresh calls k) :
    AllReach calls k ∧ mapPagesVirtual calls k = mapPages calls k := by
  induction calls generalizing k with
  | nil => exact ⟨trivial, rfl⟩
  | cons call calls ih =>
      obtain ⟨reaches, same⟩ := MapCall.runVirtual_eq apart identity fresh.1
      obtain ⟨next, ran, maps⟩ := MapCall.mapsPage apart fresh.1
      obtain ⟨highHead, highRest⟩ := List.forall_mem_cons.mp high
      have still (addr : Word) (low : addr < identityLimit) :
          entryAt next.mem addr = some (identityEntry (pageNumber addr)) := by
        refine maps.kept addr (fun samePage => ?_) _ (identity addr low)
        have below := pageNumber_lt_iff.mpr low
        rw [samePage, pageNumber_lt_iff] at below
        exact BitVec.not_lt.mpr highHead below
      obtain ⟨reachRest, sameRest⟩ := ih maps.apart still highRest (fresh.2 next ran)
      refine ⟨⟨reaches, fun other ranOther => ?_⟩, ?_⟩
      · rw [same, ran] at ranOther
        cases ranOther
        exact reachRest
      · rw [mapPagesVirtual, mapPages, same, ran]
        exact sameRest

end KernelV.Memory
