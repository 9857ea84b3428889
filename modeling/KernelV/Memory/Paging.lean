import KernelV.Library.TableMemory
import KernelV.Memory.Pmm

/-!
# Two-level page tables

The page directory at `0x80000` and the page tables it links are arrays of 1024
words in one physical memory. `pagingInit` fills the directory and the first table,
`pagingMapPage` sets one entry and allocates, clears and links a table when the
directory has none. The processor reads the same words (`walk`, `translate`).

The code reaches a page table through its physical address, which works inside the
identity-mapped first 4 MiB only: a store to a table outside of it faults and stops
the machine. A `Machine` is `ok` while the kernel goes on and `error` once it has
stopped. The directory is read at its fixed address inside the first 4 MiB. Loading
`cr3` and `cr0`, flushing the TLB and the output on the console are left out, and
the frame bitmap is a component of its own.

The rest of the module says what the stores do to the two levels. As long as the
linked tables are different frames, none of them the directory (`TablesApart`),
linking a cleared table changes one directory entry (`tableAt_linkTable`) and
setting an entry changes one page (`entryAt_setEntry`).
-/

set_option autoImplicit false

namespace KernelV.Memory

open Library

/-! ## The state -/

inductive PanikMode where
  | normal
  | test
  deriving DecidableEq, Repr

/-- What `panik` records. -/
structure PanikState where
  mode : PanikMode
  panikCalled : Bool
  panikCallCount : ℕ
  /-- The format and the arguments of the last message. -/
  lastPanikMsg : Option (String × List Word)

/-- The part of the machine that paging works on. -/
structure Kernel where
  pmm : Pmm
  /-- The words of physical memory, by byte address. -/
  mem : Word → Word
  panikState : PanikState
  /-- Everything `pmm_alloc_frame` returned for a new page table, latest first. The
  program keeps no such list. -/
  tableFrames : List Word

/-- A machine that goes on with a value, or has stopped in a state. -/
abbrev Machine := Except Kernel

/-- The state of a machine that goes on or has stopped. -/
def Machine.state : Machine Kernel → Kernel
  | .ok k => k
  | .error k => k

@[simp] theorem Machine.state_ok (k : Kernel) : Machine.state (.ok k) = k := rfl

@[simp] theorem Machine.state_error (k : Kernel) : Machine.state (.error k) = k := rfl

/-- `panik`: record the message, then stop unless in test mode. -/
def panik (format : String) (arguments : List Word) (k : Kernel) : Machine Kernel :=
  let k := { k with panikState := { k.panikState with
    panikCalled := true
    panikCallCount := k.panikState.panikCallCount + 1
    lastPanikMsg := some (format, arguments) } }
  match k.panikState.mode with
  | .test => .ok k
  | .normal => .error k

/-- The test that follows every allocation: `panik` when there is no frame. -/
def panikIfNull (frame : Word) (format : String) (arguments : List Word) (k : Kernel) :
    Machine Kernel :=
  if frame = 0 then panik format arguments k else .ok k

/-! ## Entries -/

def pagePresent : Word := 0x1
def pageWrite : Word := 0x2
def pageUser : Word := 0x4

/-- The end of the memory that `pagingInit` maps to itself. -/
def identityLimit : Word := 0x400000

/-- The address of an entry of the table at `table`. -/
def entryAddr (table : Word) (index : ℕ) : Word := cellAddr 4 table index

/-- Bits 22 to 31. -/
def pdirIndex (virtualAddr : Word) : ℕ := (virtualAddr >>> 22).toNat

/-- Bits 12 to 21. -/
def ptableIndex (virtualAddr : Word) : ℕ := ((virtualAddr >>> 12) &&& 0x03FF).toNat

/-- Bits 12 to 31. -/
def pageNumber (virtualAddr : Word) : ℕ := (virtualAddr >>> 12).toNat

def isPresent (entry : Word) : Bool := entry &&& pagePresent != 0

/-- The frame an entry points to. -/
def entryFrame (entry : Word) : Word := entry &&& 0xFFFFF000

/-- An entry for a frame with flags. -/
def pageEntry (physicalAddr flags : Word) : Word := (physicalAddr &&& 0xFFFFF000) ||| (flags &&& 0xFFF)

/-! ## The code -/

/-- The entry of the first page table for a page of the first 4 MiB. -/
def identityEntry (entry : ℕ) : Word :=
  (BitVec.ofNat 32 entry * pageSize) ||| pagePresent ||| pageWrite ||| pageUser

/-- `paging_init`. -/
def pagingInit (k : Kernel) : Kernel :=
  let mem := storeCells 4 pageDirStartAddr (fun _ => 0x00000002) pageEntries k.mem
  let mem := storeCells 4 pageTableStartAddr identityEntry pageEntries mem
  let entry := pageTableStartAddr ||| pagePresent ||| pageWrite
  { k with mem := Function.update mem (entryAddr pageDirStartAddr 0) entry }

/-- The loop of `paging_map_page` that clears a new table. A table does not straddle
the end of the identity-mapped memory. -/
def clearTable (table : Word) (k : Kernel) : Machine Kernel :=
  if table < identityLimit then
    .ok { k with mem := storeCells 4 table (fun _ => 0) pageEntries k.mem }
  else .error k

/-- The branch of `paging_map_page` for a directory entry that is not present. -/
def newPageTable (pdirIndex : ℕ) (k : Kernel) : Machine (Word × Kernel) := do
  let table := (pmmAllocFrame k.pmm).1
  let k := { k with pmm := (pmmAllocFrame k.pmm).2, tableFrames := table :: k.tableFrames }
  let k ← panikIfNull table "Out of memory: Unable to allocate frame for new page table" [] k
  let k ← clearTable table k
  let entry := table ||| pagePresent ||| pageWrite
  return (table, { k with mem := Function.update k.mem (entryAddr pageDirStartAddr pdirIndex) entry })

/-- A store to an entry of a page table. -/
def storeEntry (table : Word) (index : ℕ) (entry : Word) (k : Kernel) : Machine Kernel :=
  if table < identityLimit then
    .ok { k with mem := Function.update k.mem (entryAddr table index) entry }
  else .error k

/-- `paging_map_page`. -/
def pagingMapPage (virtualAddr physicalAddr flags : Word) (k : Kernel) : Machine Kernel := do
  let directoryEntry := k.mem (entryAddr pageDirStartAddr (pdirIndex virtualAddr))
  let (table, k) ←
    if isPresent directoryEntry then .ok (entryFrame directoryEntry, k)
    else newPageTable (pdirIndex virtualAddr) k
  storeEntry table (ptableIndex virtualAddr) (pageEntry physicalAddr flags) k

/-! ## The walk of the processor -/

/-- The table linked at an index of the directory. -/
def tableAt (mem : Word → Word) (index : ℕ) : Option Word :=
  let entry := mem (entryAddr pageDirStartAddr index)
  if isPresent entry then some (entryFrame entry) else none

/-- The table entry of an address, present or not. -/
def entryAt (mem : Word → Word) (addr : Word) : Option Word :=
  (tableAt mem (pdirIndex addr)).map fun table => mem (entryAddr table (ptableIndex addr))

/-- The present entry of an address. -/
def walk (mem : Word → Word) (addr : Word) : Option Word := (entryAt mem addr).filter isPresent

/-- The physical address of a virtual address. -/
def translate (mem : Word → Word) (addr : Word) : Option Word :=
  (walk mem addr).map fun entry => entryFrame entry ||| (addr &&& 0xFFF)

/-- The directory and the linked tables hold the same words. -/
structure SameTables (mem mem' : Word → Word) : Prop where
  directory : ∀ index < pageEntries,
    mem' (entryAddr pageDirStartAddr index) = mem (entryAddr pageDirStartAddr index)
  tables : ∀ index < pageEntries, ∀ table, tableAt mem index = some table →
    ∀ position < pageEntries, mem' (entryAddr table position) = mem (entryAddr table position)

/-! ## Indices and entries -/

theorem toNat_pageNumber (addr : Word) : pageNumber addr = addr.toNat / 4096 := by
  rw [pageNumber, BitVec.toNat_ushiftRight, Nat.shiftRight_eq_div_pow]

theorem pdirIndex_eq (addr : Word) : pdirIndex addr = pageNumber addr / 1024 := by
  rw [pdirIndex, toNat_pageNumber, BitVec.toNat_ushiftRight, Nat.shiftRight_eq_div_pow,
    Nat.div_div_eq_div_mul]

theorem ptableIndex_eq (addr : Word) : ptableIndex addr = pageNumber addr % 1024 := by
  rw [ptableIndex, BitVec.toNat_and]
  exact Nat.and_two_pow_sub_one_eq_mod _ 10

theorem pdirIndex_lt (addr : Word) : pdirIndex addr < pageEntries := by
  have bound := addr.isLt
  rw [pdirIndex_eq, toNat_pageNumber, pageEntries]
  omega

theorem ptableIndex_lt (addr : Word) : ptableIndex addr < pageEntries := by
  rw [ptableIndex_eq]
  exact Nat.mod_lt _ (by decide)

/-- Both indices together are the page. -/
theorem pageNumber_eq_iff {addr other : Word} :
    pageNumber addr = pageNumber other ↔
      pdirIndex addr = pdirIndex other ∧ ptableIndex addr = ptableIndex other := by
  rw [pdirIndex_eq, pdirIndex_eq, ptableIndex_eq, ptableIndex_eq]
  omega

namespace SameTables

variable {mem mem' : Word → Word}

theorem refl (mem : Word → Word) : SameTables mem mem := ⟨fun _ _ => rfl, fun _ _ _ _ _ _ => rfl⟩

theorem tableAt_eq (same : SameTables mem mem') {index : ℕ} (within : index < pageEntries) :
    tableAt mem' index = tableAt mem index := by
  rw [tableAt, tableAt, same.directory index within]

theorem trans {mem'' : Word → Word} (first : SameTables mem mem') (second : SameTables mem' mem'') :
    SameTables mem mem'' := by
  refine ⟨fun index within => ?_, fun index within table linked position inside => ?_⟩
  · rw [second.directory index within, first.directory index within]
  · have linkedNext : tableAt mem' index = some table := by
      rw [first.tableAt_eq within, linked]
    rw [second.tables index within table linkedNext position inside,
      first.tables index within table linked position inside]

theorem entryAt_eq (same : SameTables mem mem') : entryAt mem' = entryAt mem := by
  funext addr
  rw [entryAt, entryAt, same.tableAt_eq (pdirIndex_lt addr)]
  cases found : tableAt mem (pdirIndex addr) with
  | none => rfl
  | some table =>
      exact congrArg some (same.tables _ (pdirIndex_lt addr) table found _ (ptableIndex_lt addr))

theorem walk_eq (same : SameTables mem mem') : walk mem' = walk mem := by
  funext addr
  rw [walk, walk, same.entryAt_eq]

end SameTables

theorem frameMask_eq : (0xFFFFF000 : Word) = highMask 32 12 := by decide

theorem pageEntry_eq_join (physicalAddr flags : Word) :
    pageEntry physicalAddr flags = join 0xFFFFF000 physicalAddr flags := by
  have complement : ~~~(0xFFFFF000 : Word) = 0xFFF := by decide
  rw [pageEntry, join, complement]

/-- The frame of an entry is the frame it was made for. -/
theorem entryFrame_pageEntry (physicalAddr flags : Word) :
    entryFrame (pageEntry physicalAddr flags) = entryFrame physicalAddr := by
  rw [pageEntry_eq_join]
  exact join_and_mask _ _ _

/-- The flag bits of an entry are those of its flags. -/
theorem pageEntry_and {bit : Word} (low : bit &&& 0xFFFFF000 = 0) (physicalAddr flags : Word) :
    pageEntry physicalAddr flags &&& bit = flags &&& bit := by
  rw [pageEntry_eq_join, join_and_of_disjoint low]

theorem isPresent_pageEntry (physicalAddr flags : Word) :
    isPresent (pageEntry physicalAddr flags) = isPresent flags := by
  rw [isPresent, isPresent, pageEntry_and (by decide)]

theorem toNat_entryFrame (entry : Word) : (entryFrame entry).toNat = entry.toNat / 4096 * 4096 := by
  rw [entryFrame, frameMask_eq]
  exact toNat_and_highMask entry 12

theorem dvd_entryFrame (entry : Word) : 4 * pageEntries ∣ (entryFrame entry).toNat := by
  rw [toNat_entryFrame]
  exact Nat.dvd_mul_left _ _

theorem entryFrame_of_dvd {frame : Word} (aligned : 4096 ∣ frame.toNat) : entryFrame frame = frame := by
  rw [entryFrame, frameMask_eq]
  exact and_highMask_of_dvd aligned

/-- The directory entry for a table is an entry with the two flags. -/
theorem directoryEntry_eq {table : Word} (aligned : 4096 ∣ table.toNat) :
    table ||| pagePresent ||| pageWrite = pageEntry table 0x3 := by
  have flags : pagePresent ||| pageWrite = 0x3 &&& 0xFFF := by decide
  rw [BitVec.or_assoc, flags, pageEntry]
  exact congrArg (· ||| _) (entryFrame_of_dvd aligned).symm

/-! ## Stores to the two levels -/

theorem update_entryAddr {table other : Word} (aligned : 4096 ∣ table.toNat)
    (alignedOther : 4096 ∣ other.toNat) {index position : ℕ} (within : index < pageEntries)
    (withinOther : position < pageEntries) (mem : Word → Word) (entry : Word) :
    Function.update mem (entryAddr table index) entry (entryAddr other position) =
      if other = table ∧ position = index then entry else mem (entryAddr other position) :=
  update_cellAddr (by decide) (by decide) aligned alignedOther within withinOther mem entry

theorem storeCells_entryAddr {table other : Word} (aligned : 4096 ∣ table.toNat)
    (alignedOther : 4096 ∣ other.toNat) {position : ℕ} (within : position < pageEntries)
    (value : ℕ → Word) (mem : Word → Word) :
    storeCells 4 table value pageEntries mem (entryAddr other position) =
      if other = table then value position else mem (entryAddr other position) := by
  have divides : 4 * pageEntries ∣ 2 ^ 32 := by decide
  have stored := storeCells_cellAddr divides (by decide) aligned alignedOther le_rfl within value mem
  simp only [within, and_true] at stored
  exact stored

theorem dvd_pageDirStartAddr : 4096 ∣ pageDirStartAddr.toNat := by decide

theorem dvd_pageTableStartAddr : 4096 ∣ pageTableStartAddr.toNat := by decide

theorem dvd_of_tableAt {mem : Word → Word} {index : ℕ} {table : Word}
    (linked : tableAt mem index = some table) : 4096 ∣ table.toNat := by
  simp only [tableAt, Option.ite_none_right_eq_some, Option.some.injEq] at linked
  rw [← linked.2]
  exact dvd_entryFrame _

/-- A store to one entry of a table. -/
def setEntry (mem : Word → Word) (table : Word) (index : ℕ) (entry : Word) : Word → Word :=
  Function.update mem (entryAddr table index) entry

/-- A table cleared and linked at an index of the directory. -/
def linkTable (mem : Word → Word) (index : ℕ) (table : Word) : Word → Word :=
  setEntry (storeCells 4 table (fun _ => 0) pageEntries mem) pageDirStartAddr index
    (table ||| pagePresent ||| pageWrite)

/-- The linked tables are low frames, different from each other and from the
directory, and the first one is in its place. -/
structure TablesApart (mem : Word → Word) : Prop where
  first : tableAt mem 0 = some pageTableStartAddr
  low : ∀ index < pageEntries, ∀ table, tableAt mem index = some table → table < identityLimit
  notDirectory : ∀ index < pageEntries, tableAt mem index ≠ some pageDirStartAddr
  distinct : ∀ index < pageEntries, ∀ other < pageEntries, ∀ table,
    tableAt mem index = some table → tableAt mem other = some table → index = other

/-- The linked tables are different frames, none of them the directory, wherever they lie. -/
structure TablesDistinct (mem : Word → Word) : Prop where
  notDirectory : ∀ index < pageEntries, tableAt mem index ≠ some pageDirStartAddr
  distinct : ∀ index < pageEntries, ∀ other < pageEntries, ∀ table,
    tableAt mem index = some table → tableAt mem other = some table → index = other

theorem TablesDistinct.ne_pageDirStartAddr {mem : Word → Word} (distinct : TablesDistinct mem) {index : ℕ}
    (within : index < pageEntries) {table : Word} (linked : tableAt mem index = some table) :
    table ≠ pageDirStartAddr := by
  rintro rfl
  exact distinct.notDirectory index within linked

theorem TablesApart.tablesDistinct {mem : Word → Word} (apart : TablesApart mem) : TablesDistinct mem :=
  ⟨apart.notDirectory, apart.distinct⟩

theorem TablesApart.ne_pageDirStartAddr {mem : Word → Word} (apart : TablesApart mem) {index : ℕ}
    (within : index < pageEntries) {table : Word} (linked : tableAt mem index = some table) :
    table ≠ pageDirStartAddr :=
  apart.tablesDistinct.ne_pageDirStartAddr within linked

/-- A frame that can become a page table: aligned, low, and neither the directory
nor a linked table. -/
structure FreshTable (mem : Word → Word) (table : Word) : Prop where
  aligned : 4096 ∣ table.toNat
  low : table < identityLimit
  notDirectory : table ≠ pageDirStartAddr
  unlinked : ∀ index < pageEntries, tableAt mem index ≠ some table

/-- The same, wherever the frame lies. -/
structure UnlinkedTable (mem : Word → Word) (table : Word) : Prop where
  aligned : 4096 ∣ table.toNat
  notDirectory : table ≠ pageDirStartAddr
  unlinked : ∀ index < pageEntries, tableAt mem index ≠ some table

theorem FreshTable.unlinkedTable {mem : Word → Word} {table : Word} (fresh : FreshTable mem table) :
    UnlinkedTable mem table :=
  ⟨fresh.aligned, fresh.notDirectory, fresh.unlinked⟩

section Stores

variable {mem : Word → Word} {table : Word} {index : ℕ}

theorem tableAt_setEntry (aligned : 4096 ∣ table.toNat) (notDirectory : table ≠ pageDirStartAddr)
    (within : index < pageEntries) (entry : Word) {position : ℕ} (inside : position < pageEntries) :
    tableAt (setEntry mem table index entry) position = tableAt mem position := by
  have other : ¬(pageDirStartAddr = table ∧ position = index) := fun same =>
    notDirectory same.1.symm
  rw [tableAt, setEntry, update_entryAddr aligned dvd_pageDirStartAddr within inside, if_neg other]
  rfl

/-- The directory after a table is linked. -/
theorem directory_linkTable (aligned : 4096 ∣ table.toNat) (notDirectory : table ≠ pageDirStartAddr)
    (within : index < pageEntries) {position : ℕ} (inside : position < pageEntries) :
    linkTable mem index table (entryAddr pageDirStartAddr position) =
      if position = index then pageEntry table 0x3 else mem (entryAddr pageDirStartAddr position) := by
  rw [linkTable, setEntry,
    update_entryAddr dvd_pageDirStartAddr dvd_pageDirStartAddr within inside,
    storeCells_entryAddr aligned dvd_pageDirStartAddr inside, if_neg notDirectory.symm,
    directoryEntry_eq aligned]
  simp only [true_and]

/-- **Linking a table changes one directory entry.** -/
theorem tableAt_linkTable (aligned : 4096 ∣ table.toNat) (notDirectory : table ≠ pageDirStartAddr)
    (within : index < pageEntries) {position : ℕ} (inside : position < pageEntries) :
    tableAt (linkTable mem index table) position =
      if position = index then some table else tableAt mem position := by
  have present : isPresent (pageEntry table 0x3) = true := isPresent_pageEntry table 0x3
  rw [tableAt, directory_linkTable aligned notDirectory within inside]
  by_cases same : position = index
  · simp only [same, if_true, present, entryFrame_pageEntry, entryFrame_of_dvd aligned]
  · simp only [same, if_false]
    rfl

theorem TablesDistinct.linkTable (distinct : TablesDistinct mem) (fresh : UnlinkedTable mem table)
    (within : index < pageEntries) : TablesDistinct (linkTable mem index table) := by
  have linked : ∀ position < pageEntries, tableAt (Memory.linkTable mem index table) position =
      if position = index then some table else tableAt mem position := fun position inside =>
    tableAt_linkTable fresh.aligned fresh.notDirectory within inside
  constructor
  · intro position inside found
    rw [linked position inside] at found
    split at found
    · exact fresh.notDirectory (Option.some.inj found)
    · exact distinct.notDirectory position inside found
  · intro position inside other insideOther shared found foundOther
    rw [linked position inside] at found
    rw [linked other insideOther] at foundOther
    split at found
    · split at foundOther
      · omega
      · exact absurd (found ▸ foundOther) (fresh.unlinked other insideOther)
    · split at foundOther
      · exact absurd (foundOther ▸ found) (fresh.unlinked position inside)
      · exact distinct.distinct position inside other insideOther shared found foundOther

theorem TablesApart.linkTable (apart : TablesApart mem) (fresh : FreshTable mem table)
    (within : index < pageEntries) (absent : tableAt mem index = none) :
    TablesApart (linkTable mem index table) := by
  have linked : ∀ position < pageEntries, tableAt (Memory.linkTable mem index table) position =
      if position = index then some table else tableAt mem position := fun position inside =>
    tableAt_linkTable fresh.aligned fresh.notDirectory within inside
  have notFirst : 0 ≠ index := by
    rintro rfl
    rw [apart.first] at absent
    exact Option.some_ne_none _ absent
  obtain ⟨notDirectory, distinct⟩ := apart.tablesDistinct.linkTable fresh.unlinkedTable within
  refine ⟨?_, fun position inside other found => ?_, notDirectory, distinct⟩
  · rw [linked 0 (by decide), if_neg notFirst]
    exact apart.first
  · rw [linked position inside] at found
    split at found
    · exact Option.some.inj found ▸ fresh.low
    · exact apart.low position inside other found

theorem TablesDistinct.setEntry (distinct : TablesDistinct mem) (aligned : 4096 ∣ table.toNat)
    (notDirectory : table ≠ pageDirStartAddr) (within : index < pageEntries) (entry : Word) :
    TablesDistinct (setEntry mem table index entry) := by
  have same : ∀ position < pageEntries,
      tableAt (Memory.setEntry mem table index entry) position = tableAt mem position :=
    fun position inside => tableAt_setEntry aligned notDirectory within entry inside
  constructor
  · intro position inside
    rw [same position inside]
    exact distinct.notDirectory position inside
  · intro position inside other insideOther
    rw [same position inside, same other insideOther]
    exact distinct.distinct position inside other insideOther

theorem TablesApart.setEntry (apart : TablesApart mem) (aligned : 4096 ∣ table.toNat)
    (notDirectory : table ≠ pageDirStartAddr) (within : index < pageEntries) (entry : Word) :
    TablesApart (setEntry mem table index entry) := by
  have same : ∀ position < pageEntries,
      tableAt (Memory.setEntry mem table index entry) position = tableAt mem position :=
    fun position inside => tableAt_setEntry aligned notDirectory within entry inside
  obtain ⟨apartDirectory, distinct⟩ := apart.tablesDistinct.setEntry aligned notDirectory within entry
  refine ⟨?_, fun position inside => ?_, apartDirectory, distinct⟩
  · rw [same 0 (by decide)]
    exact apart.first
  · rw [same position inside]
    exact apart.low position inside

/-- **Setting an entry of a linked table changes one page.** -/
theorem entryAt_setEntry (distinct : TablesDistinct mem) {virtualAddr : Word}
    (linked : tableAt mem (pdirIndex virtualAddr) = some table) (entry addr : Word) :
    entryAt (setEntry mem table (ptableIndex virtualAddr) entry) addr =
      if pageNumber addr = pageNumber virtualAddr then some entry else entryAt mem addr := by
  have aligned := dvd_of_tableAt linked
  have notDirectory := distinct.ne_pageDirStartAddr (pdirIndex_lt virtualAddr) linked
  simp only [pageNumber_eq_iff]
  rw [entryAt, tableAt_setEntry aligned notDirectory (ptableIndex_lt virtualAddr) entry
    (pdirIndex_lt addr), entryAt]
  cases found : tableAt mem (pdirIndex addr) with
  | none =>
      have other : ¬(pdirIndex addr = pdirIndex virtualAddr ∧
          ptableIndex addr = ptableIndex virtualAddr) := by
        rintro ⟨same, -⟩
        rw [same, linked] at found
        exact Option.some_ne_none _ found
      rw [if_neg other]
      rfl
  | some shared =>
      have sameTable : shared = table ↔ pdirIndex addr = pdirIndex virtualAddr := by
        constructor
        · rintro rfl
          exact distinct.distinct _ (pdirIndex_lt addr) _ (pdirIndex_lt virtualAddr) _ found linked
        · intro same
          rw [same, linked] at found
          exact (Option.some.inj found).symm
      rw [Option.map_some, Option.map_some, setEntry,
        update_entryAddr aligned (dvd_of_tableAt found) (ptableIndex_lt virtualAddr)
          (ptableIndex_lt addr)]
      simp only [sameTable]
      split
      · rfl
      · rfl

/-- A fresh table makes every page of its 4 MiB an empty entry. -/
theorem entryAt_linkTable (fresh : UnlinkedTable mem table) (distinct : TablesDistinct mem)
    (within : index < pageEntries) (addr : Word) :
    entryAt (linkTable mem index table) addr =
      if pdirIndex addr = index then some 0 else entryAt mem addr := by
  rw [entryAt, tableAt_linkTable fresh.aligned fresh.notDirectory within (pdirIndex_lt addr), entryAt]
  by_cases same : pdirIndex addr = index
  · have notDirectory : ¬(table = pageDirStartAddr ∧ ptableIndex addr = index) := fun both =>
      fresh.notDirectory both.1
    rw [if_pos same, if_pos same, Option.map_some, linkTable, setEntry,
      update_entryAddr dvd_pageDirStartAddr fresh.aligned within (ptableIndex_lt addr),
      if_neg notDirectory, storeCells_entryAddr fresh.aligned fresh.aligned (ptableIndex_lt addr),
      if_pos rfl]
  · rw [if_neg same, if_neg same]
    cases found : tableAt mem (pdirIndex addr) with
    | none => rfl
    | some other =>
        have notDirectory : ¬(other = pageDirStartAddr ∧ ptableIndex addr = index) := fun same =>
          distinct.ne_pageDirStartAddr (pdirIndex_lt addr) found same.1
        have notFresh : other ≠ table := by
          rintro rfl
          exact fresh.unlinked _ (pdirIndex_lt addr) found
        rw [Option.map_some, Option.map_some, linkTable, setEntry,
          update_entryAddr dvd_pageDirStartAddr (dvd_of_tableAt found) within (ptableIndex_lt addr),
          if_neg notDirectory,
          storeCells_entryAddr fresh.aligned (dvd_of_tableAt found) (ptableIndex_lt addr),
          if_neg notFresh]

/-- The step from `mem` to `mem'` gives the page of an address an entry and changes
no other page. -/
structure MapsPage (virtualAddr entry : Word) (mem mem' : Word → Word) : Prop where
  apart : TablesApart mem'
  mapped : ∀ addr, pageNumber addr = pageNumber virtualAddr → entryAt mem' addr = some entry
  kept : ∀ addr, pageNumber addr ≠ pageNumber virtualAddr → ∀ old,
    entryAt mem addr = some old → entryAt mem' addr = some old
  walk : ∀ addr, pageNumber addr ≠ pageNumber virtualAddr → walk mem' addr = walk mem addr

/-- A present entry is what the page walk finds. -/
theorem MapsPage.walk_self {mem' : Word → Word} {virtualAddr entry addr : Word}
    (maps : MapsPage virtualAddr entry mem mem')
    (present : isPresent entry = true) (same : pageNumber addr = pageNumber virtualAddr) :
    Memory.walk mem' addr = some entry := by
  rw [Memory.walk, maps.mapped addr same, Option.filter_some, if_pos present]

theorem mapsPage_setEntry (apart : TablesApart mem) {virtualAddr : Word}
    (linked : tableAt mem (pdirIndex virtualAddr) = some table) (entry : Word) :
    MapsPage virtualAddr entry mem (setEntry mem table (ptableIndex virtualAddr) entry) := by
  have notDirectory := apart.ne_pageDirStartAddr (pdirIndex_lt virtualAddr) linked
  refine ⟨apart.setEntry (dvd_of_tableAt linked) notDirectory (ptableIndex_lt virtualAddr) entry,
    fun addr same => ?_, fun addr different old found => ?_, fun addr different => ?_⟩
  · rw [entryAt_setEntry apart.tablesDistinct linked, if_pos same]
  · rw [entryAt_setEntry apart.tablesDistinct linked, if_neg different, found]
  · rw [walk, entryAt_setEntry apart.tablesDistinct linked, if_neg different, walk]

/-- The entries of a new table are empty, so the pages around the one mapped stay
without a present entry. -/
theorem mapsPage_linkTable (apart : TablesApart mem) (fresh : FreshTable mem table)
    {virtualAddr : Word} (absent : tableAt mem (pdirIndex virtualAddr) = none) (entry : Word) :
    MapsPage virtualAddr entry mem
      (setEntry (linkTable mem (pdirIndex virtualAddr) table) table (ptableIndex virtualAddr) entry) := by
  have within := pdirIndex_lt virtualAddr
  have linked : tableAt (linkTable mem (pdirIndex virtualAddr) table) (pdirIndex virtualAddr) =
      some table := by
    rw [tableAt_linkTable fresh.aligned fresh.notDirectory within within, if_pos rfl]
  have set := mapsPage_setEntry (apart.linkTable fresh within absent) linked entry
  refine ⟨set.apart, set.mapped, fun addr different old found => ?_, fun addr different => ?_⟩
  · refine set.kept addr different old ?_
    rw [entryAt_linkTable fresh.unlinkedTable apart.tablesDistinct within, if_neg, found]
    intro same
    rw [entryAt, same, absent] at found
    exact Option.some_ne_none _ found.symm
  · rw [set.walk addr different, walk, entryAt_linkTable fresh.unlinkedTable apart.tablesDistinct within, walk]
    split
    · rename_i same
      rw [entryAt, same, absent]
      rfl
    · rfl

end Stores

/-! ## What the code does to the two levels -/

/-- The directory after `paging_init`. -/
theorem directory_pagingInit (k : Kernel) {index : ℕ} (within : index < pageEntries) :
    (pagingInit k).mem (entryAddr pageDirStartAddr index) =
      if index = 0 then pageEntry pageTableStartAddr 0x3 else 0x2 := by
  have apart : pageDirStartAddr ≠ pageTableStartAddr := by decide
  simp only [pagingInit]
  rw [update_entryAddr dvd_pageDirStartAddr dvd_pageDirStartAddr (by decide) within,
    storeCells_entryAddr dvd_pageTableStartAddr dvd_pageDirStartAddr within, if_neg apart,
    storeCells_entryAddr dvd_pageDirStartAddr dvd_pageDirStartAddr within, if_pos rfl,
    directoryEntry_eq dvd_pageTableStartAddr]
  simp only [true_and]

theorem tableAt_pagingInit (k : Kernel) {index : ℕ} (within : index < pageEntries) :
    tableAt (pagingInit k).mem index = if index = 0 then some pageTableStartAddr else none := by
  rw [tableAt, directory_pagingInit k within]
  by_cases first : index = 0
  · simp only [first, if_true]
    decide
  · simp only [first, if_false]
    decide

/-- `paging_init` leaves exactly the first table linked. -/
theorem tablesApart_pagingInit (k : Kernel) : TablesApart (pagingInit k).mem := by
  have linked : ∀ index < pageEntries, ∀ table, tableAt (pagingInit k).mem index = some table →
      index = 0 ∧ table = pageTableStartAddr := by
    intro index within table found
    rw [tableAt_pagingInit k within, Option.ite_none_right_eq_some, Option.some.injEq] at found
    exact ⟨found.1, found.2.symm⟩
  constructor
  · exact tableAt_pagingInit k (by decide)
  · intro index within table found
    rw [(linked index within table found).2]
    decide
  · intro index within found
    exact absurd (linked index within _ found).2 (by decide)
  · intro index within other withinOther table found foundOther
    rw [(linked index within table found).1, (linked other withinOther table foundOther).1]

/-- The entries after `paging_init`: the first 4 MiB mapped to themselves, and no
table for the rest. -/
theorem entryAt_pagingInit (k : Kernel) (addr : Word) :
    entryAt (pagingInit k).mem addr =
      if pdirIndex addr = 0 then some (identityEntry (ptableIndex addr)) else none := by
  have notDirectory : ¬(pageTableStartAddr = pageDirStartAddr ∧ ptableIndex addr = 0) := by
    rintro ⟨same, -⟩
    exact absurd same (by decide)
  have word : (pagingInit k).mem (entryAddr pageTableStartAddr (ptableIndex addr)) =
      identityEntry (ptableIndex addr) := by
    simp only [pagingInit]
    rw [update_entryAddr dvd_pageDirStartAddr dvd_pageTableStartAddr (by decide)
      (ptableIndex_lt addr), if_neg notDirectory,
      storeCells_entryAddr dvd_pageTableStartAddr dvd_pageTableStartAddr (ptableIndex_lt addr),
      if_pos rfl]
  rw [entryAt, tableAt_pagingInit k (pdirIndex_lt addr)]
  by_cases first : pdirIndex addr = 0
  · simp only [first, if_true, Option.map_some, word]
  · simp only [first, if_false, Option.map_none]

/-- After the test for a frame the machine goes on unless there is none in normal mode. -/
theorem panikIfNull_goesOn {frame : Word} {k : Kernel}
    (goesOn : frame = 0 → k.panikState.mode = .test) (format : String) (arguments : List Word) :
    ∃ panikState, panikState.mode = k.panikState.mode ∧ (frame ≠ 0 → panikState = k.panikState) ∧
      panikIfNull frame format arguments k = .ok { k with panikState } := by
  by_cases zero : frame = 0
  · have test := goesOn zero
    simp only [panikIfNull, zero, if_true, panik, test]
    refine ⟨_, ?_, fun nonzero => absurd rfl nonzero, rfl⟩
    rfl
  · simp only [panikIfNull, zero, if_false]
    exact ⟨_, rfl, fun _ => rfl, rfl⟩

section MapPage

variable {virtualAddr : Word} {k : Kernel} (physicalAddr flags : Word)

/-- With a linked table, `paging_map_page` sets one entry. -/
theorem pagingMapPage_linked {table : Word} (linked : tableAt k.mem (pdirIndex virtualAddr) = some table)
    (low : table < identityLimit) :
    pagingMapPage virtualAddr physicalAddr flags k =
      .ok { k with mem := setEntry k.mem table (ptableIndex virtualAddr)
                            (pageEntry physicalAddr flags) } := by
  simp only [tableAt, Option.ite_none_right_eq_some, Option.some.injEq] at linked
  obtain ⟨present, rfl⟩ := linked
  simp only [pagingMapPage, present, if_true, bind, Except.bind, storeEntry, low, setEntry]

/-- The state of `paging_map_page` once a table has been asked for. -/
def Kernel.withTableFrame (k : Kernel) : Kernel :=
  { k with
    pmm := (pmmAllocFrame k.pmm).2
    tableFrames := (pmmAllocFrame k.pmm).1 :: k.tableFrames }

theorem pagingMapPage_absent (absent : tableAt k.mem (pdirIndex virtualAddr) = none) :
    pagingMapPage virtualAddr physicalAddr flags k =
      (newPageTable (pdirIndex virtualAddr) k).bind fun (table, k) =>
        storeEntry table (ptableIndex virtualAddr) (pageEntry physicalAddr flags) k := by
  simp only [tableAt, ite_eq_right_iff, reduceCtorEq, imp_false] at absent
  simp only [pagingMapPage, absent]
  rfl

/-- When `paging_map_page` goes on after the allocation, it links what it was given, be it 0. -/
theorem pagingMapPage_goesOn (absent : tableAt k.mem (pdirIndex virtualAddr) = none)
    (goesOn : (pmmAllocFrame k.pmm).1 = 0 → k.panikState.mode = .test)
    (low : (pmmAllocFrame k.pmm).1 < identityLimit) :
    ∃ panikState, panikState.mode = k.panikState.mode ∧
      ((pmmAllocFrame k.pmm).1 ≠ 0 → panikState = k.panikState) ∧
      pagingMapPage virtualAddr physicalAddr flags k =
        .ok { k.withTableFrame with
                panikState
                mem := setEntry (linkTable k.mem (pdirIndex virtualAddr) (pmmAllocFrame k.pmm).1)
                  (pmmAllocFrame k.pmm).1 (ptableIndex virtualAddr) (pageEntry physicalAddr flags) } := by
  have test : (pmmAllocFrame k.pmm).1 = 0 → k.withTableFrame.panikState.mode = .test := goesOn
  obtain ⟨panikState, mode, same, passed⟩ := panikIfNull_goesOn test
    "Out of memory: Unable to allocate frame for new page table" []
  rw [Kernel.withTableFrame] at passed
  rw [pagingMapPage_absent physicalAddr flags absent]
  simp only [newPageTable, passed, clearTable, low, if_true, bind, Except.bind, pure, Except.pure,
    storeEntry, linkTable, setEntry, Kernel.withTableFrame]
  exact ⟨panikState, mode, same, rfl⟩

/-- Without a linked table, and with a low frame for one, `paging_map_page` links it
and sets one entry. -/
theorem pagingMapPage_new (absent : tableAt k.mem (pdirIndex virtualAddr) = none)
    (success : (pmmAllocFrame k.pmm).1 ≠ 0) (low : (pmmAllocFrame k.pmm).1 < identityLimit) :
    pagingMapPage virtualAddr physicalAddr flags k =
      .ok { k.withTableFrame with
              mem := setEntry (linkTable k.mem (pdirIndex virtualAddr) (pmmAllocFrame k.pmm).1)
                (pmmAllocFrame k.pmm).1 (ptableIndex virtualAddr) (pageEntry physicalAddr flags) } := by
  obtain ⟨panikState, -, same, mapped⟩ := pagingMapPage_goesOn physicalAddr flags absent
    (fun failure => absurd failure success) low
  rw [mapped, same success]
  rfl

/-- A table frame outside of the identity-mapped memory stops the machine. -/
theorem pagingMapPage_high (absent : tableAt k.mem (pdirIndex virtualAddr) = none)
    (success : (pmmAllocFrame k.pmm).1 ≠ 0) (high : ¬ (pmmAllocFrame k.pmm).1 < identityLimit) :
    pagingMapPage virtualAddr physicalAddr flags k = .error k.withTableFrame := by
  rw [pagingMapPage_absent physicalAddr flags absent]
  simp only [newPageTable, panikIfNull, success, if_false, clearTable, high, bind, Except.bind,
    Kernel.withTableFrame]

/-- Without memory for a table, and outside of test mode, the machine stops with its
paging structures as they were. -/
theorem pagingMapPage_exhausted (absent : tableAt k.mem (pdirIndex virtualAddr) = none)
    (normal : k.panikState.mode = .normal) (failure : (pmmAllocFrame k.pmm).1 = 0) :
    ∃ panikState, panikState.mode = .normal ∧
      pagingMapPage virtualAddr physicalAddr flags k = .error { k.withTableFrame with panikState } := by
  rw [pagingMapPage_absent physicalAddr flags absent]
  simp only [newPageTable, panikIfNull, failure, if_true, panik, normal, bind, Except.bind,
    Kernel.withTableFrame]
  exact ⟨_, rfl, rfl⟩

/-- **Everything `paging_map_page` can do** outside of test mode: set an entry of a
linked table, stop for lack of a usable table frame, or link a new table. -/
theorem pagingMapPage_cases (apart : TablesApart k.mem) (normal : k.panikState.mode = .normal) :
    (∃ table, tableAt k.mem (pdirIndex virtualAddr) = some table ∧
        pagingMapPage virtualAddr physicalAddr flags k =
          .ok { k with mem := setEntry k.mem table (ptableIndex virtualAddr)
                                (pageEntry physicalAddr flags) }) ∨
      tableAt k.mem (pdirIndex virtualAddr) = none ∧
        ((∃ panikState, panikState.mode = .normal ∧
            pagingMapPage virtualAddr physicalAddr flags k =
              .error { k.withTableFrame with panikState }) ∨
          (pmmAllocFrame k.pmm).1 ≠ 0 ∧ (pmmAllocFrame k.pmm).1 < identityLimit ∧
            pagingMapPage virtualAddr physicalAddr flags k =
              .ok { k.withTableFrame with
                      mem := setEntry
                        (linkTable k.mem (pdirIndex virtualAddr) (pmmAllocFrame k.pmm).1)
                        (pmmAllocFrame k.pmm).1 (ptableIndex virtualAddr)
                        (pageEntry physicalAddr flags) }) := by
  cases found : tableAt k.mem (pdirIndex virtualAddr) with
  | some table =>
      have low := apart.low _ (pdirIndex_lt virtualAddr) table found
      exact .inl ⟨table, rfl, pagingMapPage_linked physicalAddr flags found low⟩
  | none =>
      refine .inr ⟨rfl, ?_⟩
      by_cases failure : (pmmAllocFrame k.pmm).1 = 0
      · exact .inl (pagingMapPage_exhausted physicalAddr flags found normal failure)
      · by_cases low : (pmmAllocFrame k.pmm).1 < identityLimit
        · exact .inr ⟨failure, low, pagingMapPage_new physicalAddr flags found failure low⟩
        · exact .inl ⟨k.panikState, normal, pagingMapPage_high physicalAddr flags found failure low⟩

end MapPage

end KernelV.Memory
