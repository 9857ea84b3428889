import KernelV.Memory.StackOverflow

/-!
# Stores behind pages and stores of the handler

Two kinds of store come together on a booted kernel: those of programs, to the words behind pages
from 4 MiB on, and those of `page_fault_handler`, which maps new pages.

The frame behind a page belongs to this page alone, so a store to it changes no entry
(`Owned.sameTables_store`) and no word behind another page (`Owned.translate_injective`). A fault
that is answered stores to the directory, to a linked table, or to a frame that was free
(`GetsFrame`), so the words behind the other pages stay as they are (`Provided.grows`). A word in a
frame that is neither free nor in use is out of reach of both (`Reserved`).
-/

set_option autoImplicit false

namespace KernelV.Memory

open Library

/-! ## The places of words -/

section Places

variable {mem : Word → Word} {table place : Word} {index : ℕ}

theorem entryFrame_entryAddr (aligned : 4096 ∣ table.toNat) (within : index < pageEntries) :
    entryFrame (entryAddr table index) = table := by
  have bound : pageEntries = 1024 := rfl
  have divides : 4 * pageEntries ∣ 2 ^ 32 := by decide
  have value : (entryAddr table index).toNat = table.toNat + 4 * index :=
    toNat_cellAddr divides (by decide) aligned within
  apply BitVec.eq_of_toNat_eq
  rw [toNat_entryFrame, value]
  omega

theorem setEntry_of_ne (aligned : 4096 ∣ table.toNat) (within : index < pageEntries)
    (different : entryFrame place ≠ table) (entry : Word) :
    setEntry mem table index entry place = mem place := by
  apply Function.update_of_ne
  rintro rfl
  exact different (entryFrame_entryAddr aligned within)

theorem storeCells_of_ne (aligned : 4096 ∣ table.toNat) (different : entryFrame place ≠ table)
    (entries : ℕ → Word) {count : ℕ} (few : count ≤ pageEntries) :
    storeCells 4 table entries count mem place = mem place := by
  induction count with
  | zero => rfl
  | succ count ih =>
      have inside : count < pageEntries := few
      rw [storeCells, Function.update_of_ne]
      · exact ih (Nat.le_of_lt inside)
      · rintro rfl
        exact different (entryFrame_entryAddr aligned inside)

theorem linkTable_of_ne (aligned : 4096 ∣ table.toNat) (within : index < pageEntries)
    (different : entryFrame place ≠ table) (notDirectory : entryFrame place ≠ pageDirStartAddr) :
    linkTable mem index table place = mem place := by
  rw [linkTable, setEntry_of_ne dvd_pageDirStartAddr within notDirectory]
  exact storeCells_of_ne aligned different _ le_rfl

/-- The translated address lies in the frame of the entry, as far into it as the address into its
page. -/
theorem exists_walk_of_translate {addr physical : Word} (found : translate mem addr = some physical) :
    ∃ entry, walk mem addr = some entry ∧ entryFrame physical = entryFrame entry ∧
      physical &&& 0xFFF = addr &&& 0xFFF := by
  obtain ⟨entry, walked, rfl⟩ := Option.map_eq_some_iff.mp found
  refine ⟨entry, walked, ?_, ?_⟩
  · exact entryFrame_pageEntry entry addr
  · exact pageEntry_and (by decide) entry addr

/-- A page and the place in it determine the address. -/
theorem eq_of_pageNumber {addr other : Word} (page : pageNumber addr = pageNumber other)
    (offset : addr &&& 0xFFF = other &&& 0xFFF) : addr = other := by
  have low (word : Word) : (word &&& 0xFFF).toNat = word.toNat % 4096 := by
    rw [BitVec.toNat_and]
    exact Nat.and_two_pow_sub_one_eq_mod _ 12
  have offsets := congrArg BitVec.toNat offset
  rw [low, low] at offsets
  rw [toNat_pageNumber, toNat_pageNumber] at page
  exact BitVec.eq_of_toNat_eq (by omega)

end Places

/-! ## Stores behind a page -/

section Store

variable {k : Kernel} {addr physical : Word}

/-- The frame behind a page belongs to the page. -/
theorem Owned.owns_of_translate (high : identityLimit ≤ addr)
    (found : translate k.mem addr = some physical) :
    Owns k.mem (.page (pageNumber addr)) (entryFrame physical) := by
  obtain ⟨entry, walked, frame, -⟩ := exists_walk_of_translate found
  exact ⟨addr, entry, high, rfl, walked, frame.symm⟩

/-- So it is neither the directory nor a linked table. -/
theorem Owned.frame_ne (owned : Owned k) (high : identityLimit ≤ addr)
    (found : translate k.mem addr = some physical) :
    entryFrame physical ≠ pageDirStartAddr ∧
      ∀ index < pageEntries, tableAt k.mem index ≠ some (entryFrame physical) := by
  have held := Owned.owns_of_translate high found
  have above := (owned.exclusive.taken _ _ held).1
  constructor
  · intro directory
    rw [directory] at above
    exact absurd above (by decide)
  · intro index within linked
    by_cases first : index = 0
    · rw [first, owned.apart.first, Option.some.injEq] at linked
      rw [← linked] at above
      exact absurd above (by decide)
    · have same := owned.exclusive.unique (.table index) _ _ ⟨within, first, linked⟩ held
      cases same

/-- A store outside of the directory and the linked tables leaves the paging structures alone. -/
theorem sameTables_update {mem : Word → Word} (notDirectory : entryFrame physical ≠ pageDirStartAddr)
    (notTable : ∀ index < pageEntries, tableAt mem index ≠ some (entryFrame physical)) (value : Word) :
    SameTables mem (Function.update mem physical value) := by
  constructor
  · intro index within
    apply Function.update_of_ne
    rintro rfl
    exact notDirectory (entryFrame_entryAddr dvd_pageDirStartAddr within)
  · intro index within table linked position inside
    apply Function.update_of_ne
    rintro rfl
    rw [entryFrame_entryAddr (dvd_of_tableAt linked) inside] at notTable
    exact notTable index within linked

/-- **A store behind a page leaves the paging structures alone.** -/
theorem Owned.sameTables_store (owned : Owned k) (high : identityLimit ≤ addr)
    (found : translate k.mem addr = some physical) (value : Word) :
    SameTables k.mem (Function.update k.mem physical value) := by
  obtain ⟨notDirectory, notTable⟩ := owned.frame_ne high found
  exact sameTables_update notDirectory notTable value

theorem Provided.sameTables (provided : Provided k) {mem : Word → Word} (same : SameTables k.mem mem) :
    Provided { k with mem := mem } := by
  refine ⟨provided.owned.sameTables same, ?_⟩
  rw [unmappedPages, same.walk_eq]
  exact provided.ample

theorem Provided.store (provided : Provided k) (high : identityLimit ≤ addr)
    (found : translate k.mem addr = some physical) (value : Word) :
    Provided { k with mem := Function.update k.mem physical value } :=
  provided.sameTables (provided.owned.sameTables_store high found value)

/-- **No two words share a place.** -/
theorem Owned.translate_injective (owned : Owned k) {other : Word} (high : identityLimit ≤ addr)
    (highOther : identityLimit ≤ other) (found : translate k.mem addr = some physical)
    (foundOther : translate k.mem other = some physical) : addr = other := by
  have page := owned.exclusive.unique _ _ _ (Owned.owns_of_translate high found)
    (Owned.owns_of_translate highOther foundOther)
  obtain ⟨-, -, -, offset⟩ := exists_walk_of_translate found
  obtain ⟨-, -, -, offsetOther⟩ := exists_walk_of_translate foundOther
  exact eq_of_pageNumber (Owner.page.inj page) (offset.symm.trans offsetOther)

end Store

/-! ## Stores of the handler -/

section Fault

variable {k next : Kernel} {addr : Word}

/-- The frame can be handed out: it is counted, and its bit is clear. -/
def Offered (s : Pmm) (frame : ℕ) : Prop := frame < s.totalFrames.toNat ∧ s.isUsed frame = false

theorem not_offered_of_used {s : Pmm} {frame : ℕ} (used : s.isUsed frame = true) : ¬ Offered s frame := by
  intro offered
  rw [offered.2] at used
  cases used

/-- Setting bits offers no more frames. -/
theorem Marks.offered {frames accessed : List ℕ} {s t : Pmm} (marks : Marks frames accessed s t)
    {frame : ℕ} (offered : Offered t frame) : Offered s frame := by
  obtain ⟨counted, free⟩ := offered
  refine ⟨marks.totalFrames ▸ counted, ?_⟩
  by_contra used
  rw [marks.mono (Bool.eq_true_of_not_eq_false used)] at free
  cases free

/-- What an owned kernel is given was offered. -/
theorem Owned.offered_alloc (owned : Owned k) {rounds : ℕ} (ample : Ample (rounds + 1) k.pmm)
    (success : (pmmAllocFrame k.pmm).1 ≠ 0) : Offered k.pmm ((pmmAllocFrame k.pmm).1.toNat / 4096) := by
  rcases pmmAllocFrame_cases k.pmm with ⟨-, zero, -⟩ | ⟨frame, found, address, -⟩
  · exact absurd zero success
  · obtain ⟨-, value, -⟩ := owned.nextFrame ample found
    obtain ⟨-, counted, free, -⟩ := Pmm.nextFrame_eq_some_iff.mp found
    rw [address, value, Nat.mul_div_cancel _ (by decide)]
    exact ⟨counted, free⟩

/-- The frame was offered, and the step from `k` to `next` sets the entry of the address to it, in a
table that was linked or in one made of a second frame that was offered. -/
structure GetsFrame (k next : Kernel) (addr frame : Word) : Prop where
  offered : Offered k.pmm (frame.toNat / 4096)
  aligned : 4096 ∣ frame.toNat
  offers : ∀ other, Offered next.pmm other → Offered k.pmm other
  stores :
    (∃ table, tableAt k.mem (pdirIndex addr) = some table ∧
        next.mem = setEntry k.mem table (ptableIndex addr)
          (pageEntry frame (pagePresent ||| pageWrite))) ∨
      ∃ table, FreshTable k.mem table ∧ Offered k.pmm (table.toNat / 4096) ∧
        next.mem = setEntry (linkTable k.mem (pdirIndex addr) table) table (ptableIndex addr)
          (pageEntry frame (pagePresent ||| pageWrite))

/-- **Everything that mapping a new frame stores.** -/
theorem getsFrame_of_mapNewFrame (owned : Owned k) (ample : Ample 2 k.pmm) {format : String}
    {arguments : List Word} (ran : mapNewFrame addr format arguments k = .ok next) :
    GetsFrame k next addr (pmmAllocFrame k.pmm).1 := by
  obtain ⟨ownedNext, gone⟩ := owned.withFrame ample
  have ampleNext : Ample 1 k.withFrame.pmm := ample.alloc
  obtain ⟨frames, accessed, marks⟩ := exists_marks_pmmAllocFrame k.pmm
  have success : (pmmAllocFrame k.pmm).1 ≠ 0 := by
    intro failure
    obtain ⟨panikState, -, stops⟩ := mapNewFrame_exhausted addr format arguments owned.normal failure
    rw [stops] at ran
    cases ran
  obtain ⟨spare, -⟩ := gone.resolve_left success
  have offered := owned.offered_alloc ample success
  rw [mapNewFrame_success addr format arguments success] at ran
  rcases @pagingMapPage_cases addr k.withFrame (pmmAllocFrame k.pmm).1
    (pagePresent ||| pageWrite) ownedNext.apart ownedNext.normal with
    ⟨table, linked, result⟩ | ⟨absent, ⟨panikState, -, result⟩ | ⟨second, low, result⟩⟩
  · rw [result] at ran
    cases ran
    exact ⟨offered, spare.aligned, fun other => marks.offered, .inl ⟨table, linked, rfl⟩⟩
  · rw [result] at ran
    cases ran
  · obtain ⟨-, zero | ⟨table, -⟩⟩ := ownedNext.withTableFrame ampleNext
    · exact absurd zero second
    obtain ⟨framesNext, accessedNext, marksNext⟩ := exists_marks_pmmAllocFrame k.withFrame.pmm
    have fresh := ownedNext.freshTable table.taken.1 table.aligned low table.unowned
    have offeredNext := marks.offered (ownedNext.offered_alloc ampleNext second)
    rw [result] at ran
    cases ran
    exact ⟨offered, spare.aligned, fun other still => marks.offered (marksNext.offered still),
      .inr ⟨_, fresh, offeredNext, rfl⟩⟩

/-- **Everything an answered fault stores.** -/
theorem getsFrame_of_fault (owned : Owned k) (ample : Ample 2 k.pmm) {saved : PageFaultStack}
    (ran : pageFaultHandler addr saved k = .ok next) :
    GetsFrame k next addr (pmmAllocFrame k.pmm).1 := by
  rcases fault_cases owned ample addr saved with ⟨recovers, -⟩ | ⟨stopped, error, -⟩
  · obtain ⟨-, format, arguments, handled⟩ := recovers.handled k
    rw [handled] at ran
    exact getsFrame_of_mapNewFrame owned ample ran
  · rw [error] at ran
    cases ran

namespace GetsFrame

variable {frame : Word} (gets : GetsFrame k next addr frame)
include gets

/-- A word of a frame that was not offered and is neither the directory nor a linked table stays as
it is. -/
theorem mem_eq {place : Word} (withheld : ¬ Offered k.pmm (place.toNat / 4096))
    (notDirectory : entryFrame place ≠ pageDirStartAddr)
    (unlinked : ∀ index < pageEntries, tableAt k.mem index ≠ some (entryFrame place)) :
    next.mem place = k.mem place := by
  rcases gets.stores with ⟨table, linked, stored⟩ | ⟨table, fresh, offered, stored⟩
  · rw [stored]
    apply setEntry_of_ne (dvd_of_tableAt linked) (ptableIndex_lt addr)
    rintro rfl
    exact unlinked _ (pdirIndex_lt addr) linked
  · have different : entryFrame place ≠ table := by
      rintro rfl
      rw [toNat_entryFrame, Nat.mul_div_cancel _ (by decide)] at offered
      exact withheld offered
    rw [stored, setEntry_of_ne fresh.aligned (ptableIndex_lt addr) different]
    exact linkTable_of_ne fresh.aligned (pdirIndex_lt addr) different notDirectory

/-- A frame that is in use after the fault was in use before it, or offered. -/
theorem origin (apart : TablesApart k.mem) (maps : MapsPage addr
    (pageEntry frame (pagePresent ||| pageWrite)) k.mem next.mem) {owner : Owner} {other : Word}
    (held : Owns next.mem owner other) :
    Owns k.mem owner other ∨ Offered k.pmm (other.toNat / 4096) := by
  cases owner with
  | page number =>
      rcases maps.owns_page held with old | ⟨-, rfl⟩
      · exact .inl old
      · rw [entryFrame_pageEntry, entryFrame_of_dvd gets.aligned]
        exact .inr gets.offered
  | table index =>
      obtain ⟨inside, notFirst, found⟩ := held
      rcases gets.stores with ⟨table, linked, stored⟩ | ⟨table, fresh, offered, stored⟩
      · have notDirectory := apart.ne_pageDirStartAddr (pdirIndex_lt addr) linked
        rw [stored, tableAt_setEntry (dvd_of_tableAt linked) notDirectory (ptableIndex_lt addr) _ inside]
          at found
        exact .inl ⟨inside, notFirst, found⟩
      · rw [stored, tableAt_setEntry fresh.aligned fresh.notDirectory (ptableIndex_lt addr) _ inside,
          tableAt_linkTable fresh.aligned fresh.notDirectory (pdirIndex_lt addr) inside] at found
        split at found
        · rw [← Option.some.inj found]
          exact .inr offered
        · exact .inl ⟨inside, notFirst, found⟩

end GetsFrame

/-- A fault at a page that is not present, if it is answered: the page is present, and the words
behind the other pages are still in their places. -/
theorem Provided.grows (provided : Provided k) (absent : translate k.mem addr = none)
    {frame : PageFaultStack} (ran : pageFaultHandler addr frame k = .ok next) :
    Provided next ∧ translate next.mem addr ≠ none ∧
      ∀ other, identityLimit ≤ other → ∀ physical, translate k.mem other = some physical →
        translate next.mem other = some physical ∧ next.mem physical = k.mem physical := by
  have missing : NotPresent k addr := Option.map_eq_none_iff.mp absent
  refine ⟨provided.fault (.inl missing) ran, ?_, fun other high physical found => ⟨?_, ?_⟩⟩
  · rcases fault_cases provided.owned provided.two addr frame with
      ⟨-, -, last, reached, maps⟩ | ⟨stopped, error, -⟩
    · rw [ran] at reached
      cases reached
      rw [translate, maps.walk_self (isPresent_pageEntry _ _) rfl]
      exact Option.some_ne_none _
    · rw [ran] at error
      cases error
  · have harmless : Harmless k ⟨addr, frame⟩ := fun _ => .inl missing
    have keeps := (provided.harmless harmless).1
    rw [ran, Machine.state_ok] at keeps
    obtain ⟨entry, walked, same⟩ := Option.map_eq_some_iff.mp found
    rw [translate, keeps other entry walked]
    exact congrArg some same
  · have taken := (provided.owned.exclusive.taken _ _ (Owned.owns_of_translate high found)).2
    rw [toNat_entryFrame, Nat.mul_div_cancel _ (by decide)] at taken
    obtain ⟨notDirectory, notTable⟩ := provided.owned.frame_ne high found
    exact (getsFrame_of_fault provided.owned provided.two ran).mem_eq (not_offered_of_used taken)
      notDirectory notTable

end Fault

/-! ## Reserved words -/

section Reserved

variable {k : Kernel} {place : Word}

/-- A word in a frame that is not offered and is in use for nothing a program could reach. -/
structure Reserved (k : Kernel) (place : Word) : Prop where
  withheld : ¬ Offered k.pmm (place.toNat / 4096)
  unowned : ∀ owner, ¬ Owns k.mem owner (entryFrame place)
  notDirectory : entryFrame place ≠ pageDirStartAddr
  notFirstTable : entryFrame place ≠ pageTableStartAddr

/-- The first megabyte is reserved, but for the directory and the first table. -/
theorem reserved_of_low (owned : Owned k) (low : place.toNat < 0x100000)
    (notDirectory : entryFrame place ≠ pageDirStartAddr)
    (notFirstTable : entryFrame place ≠ pageTableStartAddr) : Reserved k place := by
  refine ⟨not_offered_of_used (owned.low _ (by omega)), fun owner held => ?_, notDirectory, notFirstTable⟩
  have taken := (owned.exclusive.taken owner _ held).1
  rw [toNat_entryFrame] at taken
  omega

theorem Reserved.unlinked (reserved : Reserved k place) (owned : Owned k) :
    ∀ index < pageEntries, tableAt k.mem index ≠ some (entryFrame place) := by
  intro index within linked
  by_cases first : index = 0
  · rw [first, owned.apart.first, Option.some.injEq] at linked
    exact reserved.notFirstTable linked.symm
  · exact reserved.unowned (.table index) ⟨within, first, linked⟩

theorem Reserved.sameTables (reserved : Reserved k place) {mem : Word → Word}
    (same : SameTables k.mem mem) : Reserved { k with mem := mem } place := by
  refine ⟨reserved.withheld, ?_, reserved.notDirectory, reserved.notFirstTable⟩
  rw [same.owns_eq]
  exact reserved.unowned

/-- A store to a reserved word leaves the paging structures alone. -/
theorem Reserved.sameTables_store (reserved : Reserved k place) (owned : Owned k) (value : Word) :
    SameTables k.mem (Function.update k.mem place value) :=
  sameTables_update reserved.notDirectory (reserved.unlinked owned) value

end Reserved

end KernelV.Memory
