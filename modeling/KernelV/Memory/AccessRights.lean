import KernelV.Memory.VirtualPaging

/-!
# Access rights

The processor grants a right when its bit is set in both entries of an address: the one in the
directory, which covers 4 MiB, and the one in the table, which covers the page. The flags that
`paging_map_page` is given go into the entry of the page. The directory entry is written once, when
a table is linked, with the bit for writing and without the bit for user mode, and `paging_init`
writes the first one in the same way.

So a page can be written to exactly when that was asked for, and no page is ever accessible from
user mode. A page has the rights that were asked for exactly when `PAGE_USER` is not among them
(`hasRights_iff`). The entries of the identity map ask for it, and do not get it.
-/

set_option autoImplicit false

namespace KernelV.Memory

open Library

/-- Both entries of the address have the bit. -/
def Grants (bit : Word) (mem : Word → Word) (addr : Word) : Prop :=
  mem (entryAddr pageDirStartAddr (pdirIndex addr)) &&& bit ≠ 0 ∧
    ∃ entry, walk mem addr = some entry ∧ entry &&& bit ≠ 0

/-- The rights to the page of an address are those among the flags. -/
structure HasRights (mem : Word → Word) (addr flags : Word) : Prop where
  user : Grants pageUser mem addr ↔ flags &&& pageUser ≠ 0
  write : Grants pageWrite mem addr ↔ flags &&& pageWrite ≠ 0

/-! ## The entries of the directory -/

/-- Every present directory entry has the bit for writing and lacks the bit for user mode. -/
def SystemDirectory (mem : Word → Word) : Prop :=
  ∀ index < pageEntries, isPresent (mem (entryAddr pageDirStartAddr index)) = true →
    mem (entryAddr pageDirStartAddr index) &&& pageWrite ≠ 0 ∧
      mem (entryAddr pageDirStartAddr index) &&& pageUser = 0

theorem systemDirectory_entry (table : Word) :
    pageEntry table 0x3 &&& pageWrite ≠ 0 ∧ pageEntry table 0x3 &&& pageUser = 0 := by
  rw [pageEntry_and (by decide), pageEntry_and (by decide)]
  decide

theorem systemDirectory_pagingInit (k : Kernel) : SystemDirectory (pagingInit k).mem := by
  intro index within present
  rw [directory_pagingInit k within] at present ⊢
  split
  · exact systemDirectory_entry _
  · rename_i notFirst
    rw [if_neg notFirst] at present
    exact absurd present (by decide)

namespace SystemDirectory

variable {mem : Word → Word} {table : Word} {index : ℕ}

theorem setEntry (system : SystemDirectory mem) (aligned : 4096 ∣ table.toNat)
    (notDirectory : table ≠ pageDirStartAddr) (within : index < pageEntries) (entry : Word) :
    SystemDirectory (setEntry mem table index entry) := by
  intro position inside
  rw [Memory.setEntry, update_entryAddr aligned dvd_pageDirStartAddr within inside, if_neg]
  · exact system position inside
  · exact fun same => notDirectory same.1.symm

theorem linkTable (system : SystemDirectory mem) (fresh : UnlinkedTable mem table)
    (within : index < pageEntries) : SystemDirectory (linkTable mem index table) := by
  intro position inside present
  rw [directory_linkTable fresh.aligned fresh.notDirectory within inside] at present ⊢
  split
  · exact systemDirectory_entry table
  · rename_i other
    rw [if_neg other] at present
    exact system position inside present

end SystemDirectory

/-! ## Runs -/

/-- The tables hold the entries of an address space, behind directory entries for the system. -/
structure Enters (mem : Word → Word) (space : AddressSpace) : Prop where
  distinct : TablesDistinct mem
  system : SystemDirectory mem
  entries : ∀ addr entry, space (pageNumber addr) = some entry → entryAt mem addr = some entry

theorem enters_pagingInit (k : Kernel) : Enters (pagingInit k).mem .identity :=
  ⟨(tablesApart_pagingInit k).tablesDistinct, systemDirectory_pagingInit k,
    (refines_pagingInit k).mapped⟩

namespace Enters

variable {mem : Word → Word} {space : AddressSpace} {virtualAddr table : Word}

/-- An entry set in a linked table. -/
theorem setEntry (enters : Enters mem space)
    (linked : tableAt mem (pdirIndex virtualAddr) = some table) (entry : Word) :
    Enters (setEntry mem table (ptableIndex virtualAddr) entry)
      (space.map (pageNumber virtualAddr) entry) := by
  have aligned := dvd_of_tableAt linked
  have notDirectory := enters.distinct.ne_pageDirStartAddr (pdirIndex_lt virtualAddr) linked
  have within := ptableIndex_lt virtualAddr
  refine ⟨enters.distinct.setEntry aligned notDirectory within entry,
    enters.system.setEntry aligned notDirectory within entry, fun addr found lookup => ?_⟩
  rw [entryAt_setEntry enters.distinct linked]
  by_cases same : pageNumber addr = pageNumber virtualAddr
  · rw [AddressSpace.map, same, Function.update_self] at lookup
    rw [if_pos same, lookup]
  · rw [AddressSpace.map, Function.update_of_ne same] at lookup
    rw [if_neg same]
    exact enters.entries addr found lookup

/-- A table linked where there was none. -/
theorem linkTable (enters : Enters mem space) (fresh : UnlinkedTable mem table) {index : ℕ}
    (within : index < pageEntries) (absent : tableAt mem index = none) :
    Enters (linkTable mem index table) space := by
  refine ⟨enters.distinct.linkTable fresh within, enters.system.linkTable fresh within,
    fun addr found lookup => ?_⟩
  have entered := enters.entries addr found lookup
  rw [entryAt_linkTable fresh enters.distinct within, if_neg, entered]
  rintro rfl
  rw [entryAt, absent] at entered
  cases entered

/-- One call. -/
theorem runVirtual {call : MapCall} {k : Kernel} (enters : Enters k.mem space)
    (reaches : call.Reaches k) :
    ∃ next, call.runVirtual k = .ok next ∧
      Enters next.mem (space.map (pageNumber call.virtualAddr) call.entry) := by
  obtain ⟨next, table, ran, ⟨linked, mem⟩ | ⟨absent, fresh, mem⟩⟩ :=
    MapCall.runVirtual_cases enters.distinct reaches
  · refine ⟨next, ran, ?_⟩
    rw [mem]
    exact enters.setEntry linked call.entry
  · refine ⟨next, ran, ?_⟩
    have within := pdirIndex_lt call.virtualAddr
    have linked : tableAt (Memory.linkTable k.mem (pdirIndex call.virtualAddr) table)
        (pdirIndex call.virtualAddr) = some table := by
      rw [tableAt_linkTable fresh.aligned fresh.notDirectory within within, if_pos rfl]
    rw [mem]
    exact (enters.linkTable fresh within absent).setEntry linked call.entry

/-- **Every run of calls that reach their tables enters what they ask for**, behind directory
entries for the system. -/
theorem mapPagesVirtual {calls : List MapCall} {k : Kernel} (enters : Enters k.mem space)
    (reach : AllReach calls k) :
    ∃ last, mapPagesVirtual calls k = .ok last ∧ Enters last.mem (space.mapAll calls) := by
  induction calls generalizing k space with
  | nil => exact ⟨k, rfl, enters⟩
  | cons call calls ih =>
      obtain ⟨next, ran, entered⟩ := enters.runVirtual reach.1
      obtain ⟨last, rest, final⟩ := ih entered (reach.2 next ran)
      refine ⟨last, ?_, final⟩
      rw [Memory.mapPagesVirtual, ran]
      exact rest

/-- Of the rights that an entry asks for, the one for user mode is not granted. -/
theorem rights_iff (enters : Enters mem space) {addr entry flags : Word}
    (found : space (pageNumber addr) = some entry) (present : isPresent entry = true)
    (write : entry &&& pageWrite = flags &&& pageWrite) :
    HasRights mem addr flags ↔ flags &&& pageUser = 0 := by
  have entered := enters.entries addr entry found
  have walked : walk mem addr = some entry := by
    rw [walk, entered, Option.filter_some, if_pos present]
  have linked : isPresent (mem (entryAddr pageDirStartAddr (pdirIndex addr))) = true := by
    by_contra absent
    rw [entryAt, tableAt, if_neg absent] at entered
    cases entered
  obtain ⟨writable, system⟩ := enters.system _ (pdirIndex_lt addr) linked
  have noUser : ¬ Grants pageUser mem addr := fun grants => grants.1 system
  have grantsWrite : Grants pageWrite mem addr ↔ flags &&& pageWrite ≠ 0 := by
    rw [Grants, walked, ← write]
    simp only [writable, ne_eq, not_false_eq_true, true_and, Option.some.injEq, exists_eq_left']
  constructor
  · intro rights
    by_contra asked
    exact noUser (rights.user.mpr asked)
  · intro notAsked
    exact ⟨iff_of_false noUser (not_not.mpr notAsked), grantsWrite⟩

end Enters

/-- **A page has the rights asked for exactly when the one for user mode is not among them.** After
`paging_init` and any sequence of calls that reach their tables, this holds for every page with the
flags of the last call for it. The pages of the identity map without a call do not have the rights
that their entries ask for. -/
theorem hasRights_iff {k : Kernel} {calls : List MapCall} (reach : AllReach calls (pagingInit k)) :
    ∃ last, mapPagesVirtual calls (pagingInit k) = .ok last ∧
      (∀ addr call, lastCall calls addr = some call → isPresent call.flags = true →
        (HasRights last.mem addr call.flags ↔ call.flags &&& pageUser = 0)) ∧
      ∀ addr < identityLimit, lastCall calls addr = none →
        entryAt last.mem addr = some (identityEntry (pageNumber addr)) ∧
          ¬ HasRights last.mem addr (identityEntry (pageNumber addr)) := by
  obtain ⟨last, ran, enters⟩ := (enters_pagingInit k).mapPagesVirtual reach
  have space := AddressSpace.identity.mapAll_apply calls
  refine ⟨last, ran, fun addr call found present => ?_, fun addr low notCalled => ?_⟩
  · have asked : AddressSpace.identity.mapAll calls (pageNumber addr) = some call.entry := by
      rw [space, found]
      rfl
    refine enters.rights_iff asked ?_ ?_
    · exact (isPresent_pageEntry call.physicalAddr call.flags).trans present
    · exact pageEntry_and (by decide) call.physicalAddr call.flags
  · have asked : AddressSpace.identity.mapAll calls (pageNumber addr) =
        some (identityEntry (pageNumber addr)) := by
      rw [space, notCalled]
      exact if_pos (pageNumber_lt_iff.mpr low)
    refine ⟨enters.entries addr _ asked, ?_⟩
    rw [identityEntry_pageNumber] at asked ⊢
    rw [enters.rights_iff asked (isPresent_pageEntry addr 0x7) rfl, pageEntry_and (by decide)]
    decide

theorem allReach_sampleCalls : AllReach sampleCalls (pagingInit sampleKernel) := by
  have high : ∀ call ∈ sampleCalls, identityLimit ≤ call.virtualAddr := by decide
  have identity := (refines_pagingInit sampleKernel).mapped
  refine (mapPagesVirtual_eq (tablesApart_pagingInit sampleKernel) (fun addr low => ?_) high
    allocatesFresh_sampleCalls).1
  exact identity addr _ (if_pos (pageNumber_lt_iff.mpr low))

/-- A heap page mapped for the system is writable for the system only. A page of the identity map
is not accessible from user mode. -/
theorem hasRights_sampleCalls :
    ∃ last, mapPagesVirtual sampleCalls (pagingInit sampleKernel) = .ok last ∧
      HasRights last.mem 0xC1000ABC 0x3 ∧ ¬ HasRights last.mem 0x81234 0x81007 := by
  obtain ⟨last, ran, rights, identity⟩ := hasRights_iff allReach_sampleCalls
  exact ⟨last, ran, (rights 0xC1000ABC ⟨0xC1000000, 0x6000, 0x3⟩ rfl rfl).mpr rfl,
    (identity 0x81234 (by decide) rfl).2⟩

/-- A page that user mode was asked for, directly after `paging_init`. -/
def userCall : MapCall := ⟨0xC1000000, 0x5000, 0x7⟩

theorem allReach_userCall : AllReach [userCall] (pagingInit sampleKernel) :=
  -- The reads of the call are those of the first sample call: the flags only enter the last store.
  ⟨⟨allReach_sampleCalls.1.directory, allReach_sampleCalls.1.linked, allReach_sampleCalls.1.new⟩,
    fun _ _ => trivial⟩

/-- The page is mapped and not accessible from user mode. Neither are the pages of the identity map,
whose entries ask for it. -/
theorem not_hasRights_userCall :
    ∃ last, mapPagesVirtual [userCall] (pagingInit sampleKernel) = .ok last ∧
      ¬ HasRights last.mem 0xC1000000 userCall.flags ∧
      entryAt (pagingInit sampleKernel).mem 0x81000 = some 0x81007 ∧
      ¬ HasRights (pagingInit sampleKernel).mem 0x81000 0x81007 := by
  have start := enters_pagingInit sampleKernel
  obtain ⟨last, ran, enters⟩ := start.mapPagesVirtual allReach_userCall
  have asked : AddressSpace.identity.mapAll [userCall] (pageNumber 0xC1000000) =
      some userCall.entry := rfl
  have identity : AddressSpace.identity (pageNumber 0x81000) = some 0x81007 := rfl
  refine ⟨last, ran, ?_, start.entries 0x81000 0x81007 identity, ?_⟩
  · rw [enters.rights_iff asked (by decide) (by decide)]
    decide
  · rw [start.rights_iff identity (by decide) rfl]
    decide

end KernelV.Memory
