import KernelV.Memory.Paging
import KernelV.Memory.PmmOperations

/-!
# Page tables as a finite map

What paging is for, said without tables: an address space gives every page an
entry or none, it starts with the first 1024 pages mapped to themselves, and
mapping a page replaces the entry of that page.

The two-level tables refine this (`Refines`). `pagingInit` builds tables for the
initial address space, and `pagingMapPage` follows `AddressSpace.map` as long as
the frames it gets for new tables are fresh. By induction over the calls the walk
of the processor finds, for every page, the entry of the last call for that page
(`mapPages_refines`).
-/

set_option autoImplicit false

namespace KernelV.Memory

open Library

/-! ## Address spaces -/

/-- The entry of every page that has one. -/
abbrev AddressSpace := ℕ → Option Word

namespace AddressSpace

/-- The first 4 MiB mapped to themselves. -/
def identity : AddressSpace := fun page =>
  if page < pageEntries then some (identityEntry page) else none

/-- One page mapped. -/
def map (space : AddressSpace) (page : ℕ) (entry : Word) : AddressSpace :=
  Function.update space page (some entry)

end AddressSpace

/-- A call of `paging_map_page`. -/
structure MapCall where
  virtualAddr : Word
  physicalAddr : Word
  flags : Word

namespace MapCall

def entry (call : MapCall) : Word := pageEntry call.physicalAddr call.flags

/-- The call made on the kernel. -/
def run (call : MapCall) (k : Kernel) : Machine Kernel :=
  pagingMapPage call.virtualAddr call.physicalAddr call.flags k

/-- If the call asks for a page table, it gets a fresh frame. -/
def GetsFreshTable (call : MapCall) (k : Kernel) : Prop :=
  tableAt k.mem (pdirIndex call.virtualAddr) = none →
    (pmmAllocFrame k.pmm).1 ≠ 0 ∧ FreshTable k.mem (pmmAllocFrame k.pmm).1

end MapCall

/-- A sequence of calls. -/
def mapPages : List MapCall → Kernel → Machine Kernel
  | [], k => .ok k
  | call :: calls, k => (call.run k).bind (mapPages calls)

/-- Every call of the sequence that asks for a page table gets a fresh frame. -/
def AllocatesFresh : List MapCall → Kernel → Prop
  | [], _ => True
  | call :: calls, k => call.GetsFreshTable k ∧ ∀ next, call.run k = .ok next → AllocatesFresh calls next

/-- The address space after a sequence of calls. -/
def AddressSpace.mapAll (space : AddressSpace) (calls : List MapCall) : AddressSpace :=
  calls.foldl (fun space call => space.map (pageNumber call.virtualAddr) call.entry) space

/-- The last call for the page of an address. -/
def lastCall (calls : List MapCall) (addr : Word) : Option MapCall :=
  calls.reverse.find? fun call => pageNumber addr = pageNumber call.virtualAddr

/-- An address space after a sequence of calls, page by page. -/
theorem AddressSpace.mapAll_apply (space : AddressSpace) (calls : List MapCall) (addr : Word) :
    space.mapAll calls (pageNumber addr) =
      ((lastCall calls addr).map MapCall.entry).or (space (pageNumber addr)) := by
  induction calls generalizing space with
  | nil => rfl
  | cons call calls ih =>
      have head := ih (space.map (pageNumber call.virtualAddr) call.entry)
      rw [AddressSpace.mapAll, List.foldl_cons]
      rw [AddressSpace.mapAll] at head
      rw [head, lastCall, lastCall, List.reverse_cons, List.find?_append]
      cases calls.reverse.find? fun call => decide (pageNumber addr = pageNumber call.virtualAddr) with
      | some last => rfl
      | none =>
          by_cases same : pageNumber addr = pageNumber call.virtualAddr
          · simp [AddressSpace.map, same]
          · simp [AddressSpace.map, same]

/-! ## Refinement -/

/-- The tables in a memory describe an address space. -/
structure Refines (mem : Word → Word) (space : AddressSpace) : Prop where
  apart : TablesApart mem
  mapped : ∀ addr entry, space (pageNumber addr) = some entry → entryAt mem addr = some entry
  unmapped : ∀ addr, space (pageNumber addr) = none → walk mem addr = none

theorem Refines.mapsPage {mem mem' : Word → Word} {space : AddressSpace} {virtualAddr entry : Word}
    (refines : Refines mem space) (maps : MapsPage virtualAddr entry mem mem') :
    Refines mem' (space.map (pageNumber virtualAddr) entry) := by
  refine ⟨maps.apart, fun addr found lookup => ?_, fun addr lookup => ?_⟩
  · by_cases same : pageNumber addr = pageNumber virtualAddr
    · rw [AddressSpace.map, same, Function.update_self, Option.some.injEq] at lookup
      rw [maps.mapped addr same, lookup]
    · rw [AddressSpace.map, Function.update_of_ne same] at lookup
      exact maps.kept addr same found (refines.mapped addr found lookup)
  · by_cases same : pageNumber addr = pageNumber virtualAddr
    · rw [AddressSpace.map, same, Function.update_self] at lookup
      exact absurd lookup (Option.some_ne_none _)
    · rw [AddressSpace.map, Function.update_of_ne same] at lookup
      rw [maps.walk addr same]
      exact refines.unmapped addr lookup

/-- `paging_init` builds the identity map. -/
theorem refines_pagingInit (k : Kernel) : Refines (pagingInit k).mem .identity := by
  refine ⟨tablesApart_pagingInit k, fun addr entry lookup => ?_, fun addr lookup => ?_⟩
  · rw [AddressSpace.identity, Option.ite_none_right_eq_some, Option.some.injEq] at lookup
    obtain ⟨low, rfl⟩ := lookup
    have first : pdirIndex addr = 0 := by
      rw [pdirIndex_eq]
      exact Nat.div_eq_of_lt low
    have index : ptableIndex addr = pageNumber addr := by
      rw [ptableIndex_eq]
      exact Nat.mod_eq_of_lt low
    rw [entryAt_pagingInit, if_pos first, index]
  · rw [AddressSpace.identity, ite_eq_right_iff] at lookup
    have high : pdirIndex addr ≠ 0 := by
      intro first
      rw [pdirIndex_eq, Nat.div_eq_zero_iff] at first
      rcases first with impossible | low
      · exact absurd impossible (by decide)
      · exact absurd (lookup low) (Option.some_ne_none _)
    rw [walk, entryAt_pagingInit, if_neg high]
    rfl

/-- **A call that gets a fresh frame for its table goes on, gives its page the entry,
and changes no other page.** -/
theorem MapCall.mapsPage {call : MapCall} {k : Kernel} (apart : TablesApart k.mem)
    (fresh : call.GetsFreshTable k) :
    ∃ next, call.run k = .ok next ∧ MapsPage call.virtualAddr call.entry k.mem next.mem := by
  cases found : tableAt k.mem (pdirIndex call.virtualAddr) with
  | some table =>
      have low := apart.low _ (pdirIndex_lt call.virtualAddr) table found
      exact ⟨_, pagingMapPage_linked _ _ found low, mapsPage_setEntry apart found _⟩
  | none =>
      obtain ⟨success, fresh⟩ := fresh found
      exact ⟨_, pagingMapPage_new _ _ found success fresh.low, mapsPage_linkTable apart fresh found _⟩

/-- Sequences of calls follow the address space. -/
theorem Refines.mapPages {calls : List MapCall} {k : Kernel} {space : AddressSpace}
    (refines : Refines k.mem space) (fresh : AllocatesFresh calls k) :
    ∃ last, mapPages calls k = .ok last ∧ Refines last.mem (space.mapAll calls) := by
  induction calls generalizing k space with
  | nil => exact ⟨k, rfl, refines⟩
  | cons call calls ih =>
      obtain ⟨next, ran, maps⟩ := call.mapsPage refines.apart fresh.1
      obtain ⟨last, rest, refined⟩ := ih (refines.mapsPage maps) (fresh.2 next ran)
      refine ⟨last, ?_, refined⟩
      rw [Memory.mapPages, ran]
      exact rest

/-! ## The identity-mapped memory -/

theorem pageNumber_lt_iff {addr : Word} : pageNumber addr < pageEntries ↔ addr < identityLimit := by
  have limit : identityLimit.toNat = 0x400000 := rfl
  rw [toNat_pageNumber, BitVec.lt_def, limit, pageEntries]
  omega

/-- The identity entry of a page is the one that mapping the page to itself would set. -/
theorem identityEntry_pageNumber (addr : Word) : identityEntry (pageNumber addr) = pageEntry addr 0x7 := by
  have frame : BitVec.ofNat 32 (pageNumber addr) * pageSize = entryFrame addr := by
    apply BitVec.eq_of_toNat_eq
    have bound := addr.isLt
    rw [toNat_frameAddr (by rw [toNat_pageNumber]; omega), toNat_entryFrame, toNat_pageNumber]
  have flags : pagePresent ||| pageWrite ||| pageUser = 0x7 &&& 0xFFF := by decide
  rw [identityEntry, BitVec.or_assoc, BitVec.or_assoc, ← BitVec.or_assoc pagePresent, flags, frame]
  rfl

/-- The identity entry of a page translates every address of the page to itself. -/
theorem translate_of_identityEntry {mem : Word → Word} {addr : Word}
    (found : entryAt mem addr = some (identityEntry (pageNumber addr))) :
    translate mem addr = some addr := by
  have present : isPresent (pageEntry addr 0x7) = true := isPresent_pageEntry addr 0x7
  rw [translate, walk, found, identityEntry_pageNumber, Option.filter_some, if_pos present, Option.map_some,
    entryFrame_pageEntry]
  exact congrArg some ((pageEntry_eq_join addr addr).trans (join_self _ addr))

/-- **The page tables refine a finite map.** After `paging_init` and any sequence of
calls for addresses from 4 MiB on, with fresh frames for the new tables, the walk
translates the first 4 MiB to themselves, finds the entry of the last call for every
mapped page, and no present entry elsewhere. One more call changes its own page
only. -/
theorem mapPages_refines {k : Kernel} {calls : List MapCall}
    (high : ∀ call ∈ calls, identityLimit ≤ call.virtualAddr)
    (fresh : AllocatesFresh calls (pagingInit k)) :
    ∃ last, mapPages calls (pagingInit k) = .ok last ∧
      (∀ addr < identityLimit, translate last.mem addr = some addr) ∧
      (∀ addr call, lastCall calls addr = some call →
        entryAt last.mem addr =
          some ((call.physicalAddr &&& 0xFFFFF000) ||| (call.flags &&& 0xFFF))) ∧
      (∀ addr, identityLimit ≤ addr → lastCall calls addr = none → walk last.mem addr = none) ∧
      ∀ call : MapCall, identityLimit ≤ call.virtualAddr → call.GetsFreshTable last →
        ∃ next, call.run last = .ok next ∧
          (∀ addr, pageNumber addr = pageNumber call.virtualAddr →
            entryAt next.mem addr = some call.entry) ∧
          ∀ addr, pageNumber addr ≠ pageNumber call.virtualAddr →
            walk next.mem addr = walk last.mem addr := by
  obtain ⟨last, ran, refines⟩ := (refines_pagingInit k).mapPages fresh
  have space := AddressSpace.identity.mapAll_apply calls
  refine ⟨last, ran, fun addr low => ?_, fun addr call found => ?_, fun addr above notCalled => ?_,
    fun call _ freshTable => ?_⟩
  · have notCalled : lastCall calls addr = none := by
      refine List.find?_eq_none.mpr fun call member => ?_
      have bound := high call (List.mem_reverse.mp member)
      rw [BitVec.le_def] at bound
      rw [BitVec.lt_def] at low
      rw [decide_eq_true_iff, toNat_pageNumber, toNat_pageNumber]
      have limit : identityLimit.toNat = 0x400000 := rfl
      omega
    refine translate_of_identityEntry (refines.mapped addr _ ?_)
    rw [space, notCalled]
    exact if_pos (pageNumber_lt_iff.mpr low)
  · refine refines.mapped addr _ ?_
    rw [space, found]
    rfl
  · refine refines.unmapped addr ?_
    rw [space, notCalled]
    exact if_neg fun low => BitVec.not_lt.mpr above (pageNumber_lt_iff.mp low)
  · obtain ⟨next, ranOne, maps⟩ := call.mapsPage refines.apart freshTable
    exact ⟨next, ranOne, maps.mapped, maps.walk⟩

/-- A kernel whose allocator has three free frames, over an empty memory. -/
def sampleKernel : Kernel where
  pmm := { Pmm.fresh (fun _ => 0) with totalFrames := 4 }
  mem _ := 0
  panikState := { mode := .normal, panikCalled := false, panikCallCount := 0, lastPanikMsg := none }
  tableFrames := []

/-- The first page of the heap mapped twice. -/
def sampleCalls : List MapCall := [⟨0xC1000000, 0x5000, 0x3⟩, ⟨0xC1000000, 0x6000, 0x3⟩]

theorem allocatesFresh_sampleCalls : AllocatesFresh sampleCalls (pagingInit sampleKernel) := by
  have frame : (pmmAllocFrame (pagingInit sampleKernel).pmm).1 = 0x1000 := rfl
  have first : MapCall.GetsFreshTable ⟨0xC1000000, 0x5000, 0x3⟩ (pagingInit sampleKernel) := by
    intro _
    rw [frame]
    refine ⟨by decide, by decide, by decide, by decide, fun index within linked => ?_⟩
    rw [tableAt_pagingInit sampleKernel within, Option.ite_none_right_eq_some] at linked
    exact absurd linked.2 (by decide)
  refine ⟨first, fun next ran => ⟨fun absent => ?_, fun _ _ => trivial⟩⟩
  -- The first call has linked the table that the second one uses.
  obtain ⟨mapped, ranFirst, maps⟩ := MapCall.mapsPage (tablesApart_pagingInit sampleKernel) first
  obtain rfl : mapped = next := Except.ok.inj (ranFirst.symm.trans ran)
  have found := maps.mapped 0xC1000000 rfl
  change (tableAt mapped.mem (pdirIndex 0xC1000000)).map _ = _ at found
  rw [absent] at found
  exact absurd found.symm (Option.some_ne_none _)

/-- The heap page mapped twice has the second entry, and the next page none. -/
theorem mapPages_sampleCalls :
    ∃ last, mapPages sampleCalls (pagingInit sampleKernel) = .ok last ∧
      translate last.mem 0x81234 = some 0x81234 ∧ entryAt last.mem 0xC1000ABC = some 0x6003 ∧
      walk last.mem 0xC1001000 = none := by
  have high : ∀ call ∈ sampleCalls, identityLimit ≤ call.virtualAddr := by decide
  obtain ⟨last, ran, low, mapped, unmapped, -⟩ := mapPages_refines high allocatesFresh_sampleCalls
  exact ⟨last, ran, low _ (by decide), mapped 0xC1000ABC ⟨0xC1000000, 0x6000, 0x3⟩ rfl,
    unmapped _ (by decide) rfl⟩

end KernelV.Memory
