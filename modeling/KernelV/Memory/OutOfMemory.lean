import KernelV.Memory.Ownership

/-!
# Calls that find no frame left

`paging_map_page` needs a frame for a page table that is not there yet, and
`page_fault_handler` one for the page and perhaps a second one for its table. Each
allocation is followed by a test that calls `panik` when there is no frame, and by code
that relies on `panik` not to return.

In normal mode it does not: the machine stops before the first store. In test mode `panik`
returns, and the calls go on with address 0. A table is then made of frame 0 and linked, or
an entry is set to frame 0.

So a call that finds no frame keeps the page tables and frame 0 exactly when the last
`set_panik_mode` of the run was not to test mode, up to faults whose store cannot be made or
changes nothing (`keepsTables_run_iff`). A booted kernel that never enters test mode is safe
(`keepsTables_of_noTest`).
-/

set_option autoImplicit false

namespace KernelV.Memory

open Library

/-! ## Calls -/

/-- `set_panik_mode`. -/
def setPanikMode (mode : PanikMode) (k : Kernel) : Kernel :=
  { k with panikState := { k.panikState with mode } }

/-- What a running kernel does with the allocator, the page tables and the panic mode. -/
inductive Call where
  | allocFrame
  | freeFrame (addr : Word)
  | setPanikMode (mode : PanikMode)
  | mapPage (virtualAddr physicalAddr flags : Word)
  | pageFault (faultAddress : Word) (frame : PageFaultStack)

namespace Call

def perform (k : Kernel) : Call → Machine Kernel
  | allocFrame => .ok { k with pmm := (pmmAllocFrame k.pmm).2 }
  | freeFrame addr => .ok { k with pmm := pmmFreeFrame addr k.pmm }
  | setPanikMode mode => .ok (Memory.setPanikMode mode k)
  | mapPage virtualAddr physicalAddr flags => pagingMapPage virtualAddr physicalAddr flags k
  | pageFault faultAddress frame => pageFaultHandler faultAddress frame k

/-- The calls one after the other, as long as the machine goes on. -/
def performAll (k : Kernel) (calls : List Call) : Machine Kernel := calls.foldlM perform k

/-- The mode that the calls leave behind. -/
def modeAfter (calls : List Call) (mode : PanikMode) : PanikMode :=
  calls.foldl (fun mode call => match call with
    | setPanikMode next => next
    | _ => mode) mode

end Call

/-- The address has no page table, and the allocator has no frame for one. -/
def LacksTable (k : Kernel) (addr : Word) : Prop :=
  tableAt k.mem (pdirIndex addr) = none ∧ (pmmAllocFrame k.pmm).1 = 0

/-- The call needs a frame that it cannot get. -/
def Call.LacksFrame (k : Kernel) : Call → Prop
  | mapPage virtualAddr _ _ => LacksTable k virtualAddr
  | pageFault faultAddress frame => Recovers faultAddress frame ∧
      ((pmmAllocFrame k.pmm).1 = 0 ∨ LacksTable k.withFrame faultAddress)
  | _ => False

/-- The call stores to the word: it does not leave every content of the word in place. -/
def Call.Writes (k : Kernel) (call : Call) (addr : Word) : Prop :=
  ∃ content, (call.perform { k with mem := Function.update k.mem addr content }).state.mem addr ≠ content

/-- The call changes no entry of the directory or of a linked table, and stores nothing to
frame 0. -/
structure Call.KeepsTables (k : Kernel) (call : Call) : Prop where
  tables : SameTables k.mem (call.perform k).state.mem
  frameZero : ∀ addr, addr.toNat < 4096 → ¬ call.Writes k addr

/-- The store of a fault that goes on with address 0 cannot be made, or changes nothing. -/
def Call.Harmless (k : Kernel) : Call → Prop
  | pageFault faultAddress _ => (pmmAllocFrame k.pmm).1 = 0 ∧
      match tableAt k.mem (pdirIndex faultAddress) with
      | some table => identityLimit ≤ table ∨ table ≠ 0 ∧
          k.mem (entryAddr table (ptableIndex faultAddress)) = pageEntry 0 (pagePresent ||| pageWrite)
      | none => identityLimit ≤ (pmmAllocFrame k.withFrame.pmm).1
  | _ => False

/-! ## The code after a failed allocation -/

theorem PanikMode.eq_normal_or_test (mode : PanikMode) : mode = .normal ∨ mode = .test := by
  cases mode with
  | normal => exact .inl rfl
  | test => exact .inr rfl

/-- Behind an allocation the machine goes on, or it has no frame in normal mode. -/
theorem Kernel.goesOn_or_stops (k : Kernel) :
    ((pmmAllocFrame k.pmm).1 = 0 → k.panikState.mode = .test) ∨
      (pmmAllocFrame k.pmm).1 = 0 ∧ k.panikState.mode = .normal := by
  rcases k.panikState.mode.eq_normal_or_test with normal | test
  · by_cases failure : (pmmAllocFrame k.pmm).1 = 0
    · exact .inr ⟨failure, normal⟩
    · exact .inl fun zero => absurd zero failure
  · exact .inl fun _ => test

section NoFrame

variable {k : Kernel} {virtualAddr : Word}

/-- A page table outside of the identity-mapped memory stops the machine. -/
theorem pagingMapPage_linked_high (physicalAddr flags : Word) {table : Word}
    (linked : tableAt k.mem (pdirIndex virtualAddr) = some table) (high : ¬ table < identityLimit) :
    pagingMapPage virtualAddr physicalAddr flags k = .error k := by
  simp only [tableAt, Option.ite_none_right_eq_some, Option.some.injEq] at linked
  obtain ⟨present, rfl⟩ := linked
  simp only [pagingMapPage, present, if_true, bind, Except.bind, storeEntry, high, if_false]

end NoFrame

/-! ## The panic mode along a run -/

section Mode

variable {k : Kernel}

theorem mode_pagingMapPage (virtualAddr physicalAddr flags : Word) :
    (pagingMapPage virtualAddr physicalAddr flags k).state.panikState.mode = k.panikState.mode := by
  cases found : tableAt k.mem (pdirIndex virtualAddr) with
  | some table =>
      by_cases low : table < identityLimit
      · rw [pagingMapPage_linked physicalAddr flags found low]
        rfl
      · rw [pagingMapPage_linked_high physicalAddr flags found low]
        rfl
  | none =>
      rcases k.goesOn_or_stops with goesOn | ⟨failure, normal⟩
      · by_cases low : (pmmAllocFrame k.pmm).1 < identityLimit
        · obtain ⟨panikState, mode, -, result⟩ := pagingMapPage_goesOn physicalAddr flags found goesOn low
          rw [result]
          exact mode
        · have success : (pmmAllocFrame k.pmm).1 ≠ 0 := fun zero => low (zero ▸ by decide)
          rw [pagingMapPage_high physicalAddr flags found success low]
          rfl
      · obtain ⟨panikState, mode, result⟩ := pagingMapPage_exhausted physicalAddr flags found normal failure
        rw [result, normal]
        exact mode

theorem mode_mapNewFrame (virtualAddr : Word) (format : String) (arguments : List Word) :
    (mapNewFrame virtualAddr format arguments k).state.panikState.mode = k.panikState.mode := by
  rcases k.goesOn_or_stops with goesOn | ⟨failure, normal⟩
  · obtain ⟨panikState, mode, -, result⟩ := mapNewFrame_goesOn virtualAddr format arguments goesOn
    rw [result, mode_pagingMapPage]
    exact mode
  · obtain ⟨panikState, mode, result⟩ := mapNewFrame_exhausted virtualAddr format arguments normal failure
    rw [result, normal]
    exact mode

theorem mode_pageFaultHandler (faultAddress : Word) (frame : PageFaultStack) :
    (pageFaultHandler faultAddress frame k).state.panikState.mode = k.panikState.mode := by
  rcases pageFaultHandler_cases faultAddress frame k with
    ⟨-, -, format, arguments, result⟩ | ⟨-, result | ⟨physical, -, result⟩⟩
  · rw [result, mode_mapNewFrame]
  · rw [result]
    rfl
  · rw [result]
    rfl

/-- Only `set_panik_mode` changes the mode. -/
theorem Call.mode_perform (call : Call) :
    (call.perform k).state.panikState.mode = modeAfter [call] k.panikState.mode := by
  cases call with
  | allocFrame => rfl
  | freeFrame addr => rfl
  | setPanikMode mode => rfl
  | mapPage virtualAddr physicalAddr flags => exact mode_pagingMapPage virtualAddr physicalAddr flags
  | pageFault faultAddress frame => exact mode_pageFaultHandler faultAddress frame

/-- **The mode is the one that the calls of the run leave behind.** -/
theorem Call.mode_performAll {calls : List Call} {last : Kernel} (run : performAll k calls = .ok last) :
    last.panikState.mode = modeAfter calls k.panikState.mode := by
  induction calls generalizing k with
  | nil =>
      cases run
      rfl
  | cons call calls ih =>
      rw [performAll, List.foldlM_cons] at run
      cases ran : call.perform k with
      | error stopped =>
          rw [ran] at run
          cases run
      | ok next =>
          rw [ran] at run
          have step := call.mode_perform (k := k)
          rw [ran, Machine.state_ok] at step
          rw [ih run, step]
          rfl

/-- Without `set_panik_mode(PANIK_MODE_TEST)` the mode stays normal. -/
theorem Call.modeAfter_of_noTest {calls : List Call} (noTest : setPanikMode .test ∉ calls) :
    modeAfter calls .normal = .normal := by
  induction calls with
  | nil => rfl
  | cons call calls ih =>
      have rest := ih fun member => noTest (List.mem_cons_of_mem call member)
      cases call with
      | allocFrame => exact rest
      | freeFrame addr => exact rest
      | setPanikMode mode =>
          cases mode with
          | normal => exact rest
          | test => exact absurd List.mem_cons_self noTest
      | mapPage virtualAddr physicalAddr flags => exact rest
      | pageFault faultAddress frame => exact rest

theorem mode_foldl_mapStackPage (offs : List Word) {last : Kernel}
    (ended : offs.foldl (fun (machine : Machine Kernel) off => machine.bind (mapStackPage off)) (.ok k) =
      .ok last) : last.panikState.mode = k.panikState.mode := by
  induction offs generalizing k with
  | nil =>
      cases ended
      rfl
  | cons off offs ih =>
      rw [List.foldl_cons] at ended
      change offs.foldl _ (mapStackPage off k) = _ at ended
      have mapped := mode_mapNewFrame (k := k) (kernelStackBottomVirt + off)
        "Stack frame allocation failed" []
      rw [mapStackPage_eq] at ended
      cases ran : mapNewFrame (kernelStackBottomVirt + off) "Stack frame allocation failed" [] k with
      | error stopped =>
          rw [ran] at ended
          change offs.foldl _ (Except.error stopped) = _ at ended
          rw [foldl_mapStackPage_error] at ended
          cases ended
      | ok next =>
          rw [ran] at ended mapped
          exact (ih ended).trans mapped

/-- Boot ends in normal mode. -/
theorem mode_kernelMain {image : KernelImage} {fuel : ℕ} {map : List E820Entry}
    {frameBitmap : ℕ → BitVec 8} {mem : Word → Word}
    (boot : kernelMain image fuel map (.loaded frameBitmap mem) = some (.ok k)) :
    k.panikState.mode = .normal := by
  obtain ⟨pmm, -, ended⟩ := kernelMain_eq_some_iff.mp boot
  exact mode_foldl_mapStackPage stackOffsets ended.symm

end Mode

/-! ## One call -/

theorem toNat_entryAddr {table : Word} (aligned : 4096 ∣ table.toNat) {index : ℕ}
    (within : index < pageEntries) : (entryAddr table index).toNat = table.toNat + 4 * index :=
  toNat_cellAddr (by decide) (by decide) aligned within

/-- The directory does not lie in frame 0. -/
theorem tableAt_update_frameZero {mem : Word → Word} {index : ℕ} (within : index < pageEntries)
    {addr : Word} (low : addr.toNat < 4096) (content : Word) :
    tableAt (Function.update mem addr content) index = tableAt mem index := by
  have directory : pageDirStartAddr.toNat = 0x80000 := rfl
  have other : entryAddr pageDirStartAddr index ≠ addr := by
    rintro rfl
    rw [toNat_entryAddr dvd_pageDirStartAddr within] at low
    omega
  rw [tableAt, tableAt, Function.update_of_ne other]

section OneCall

variable {k : Kernel} {call : Call} {index : ℕ} (within : index < pageEntries)
include within

/-- A call that leaves every memory with the same table as it is. -/
theorem Call.keepsTables_of_untouched
    (untouched : ∀ mem, tableAt mem index = tableAt k.mem index →
      (call.perform { k with mem }).state.mem = mem) : call.KeepsTables k where
  tables := by
    have same : (call.perform k).state.mem = k.mem := untouched k.mem rfl
    rw [same]
    exact .refl _
  frameZero addr low := by
    rintro ⟨content, changed⟩
    refine changed ?_
    rw [untouched _ (tableAt_update_frameZero within low content), Function.update_self]

/-- A call that sets one entry of a linked table. -/
theorem Call.keepsTables_setEntry_iff {table : Word} (linked : tableAt k.mem index = some table)
    {position : ℕ} (inside : position < pageEntries) {entry : Word}
    (sets : ∀ mem, tableAt mem index = some table →
      (call.perform { k with mem }).state.mem = setEntry mem table position entry) :
    call.KeepsTables k ↔ table ≠ 0 ∧ k.mem (entryAddr table position) = entry := by
  have result : (call.perform k).state.mem = setEntry k.mem table position entry := sets k.mem linked
  have place := toNat_entryAddr (dvd_of_tableAt linked) inside
  constructor
  · intro keeps
    constructor
    · rintro rfl
      have low : (entryAddr 0 position).toNat < 4096 := by
        have zero : (0 : Word).toNat = 0 := rfl
        rw [pageEntries] at inside
        omega
      refine keeps.frameZero _ low ⟨entry + 1, ?_⟩
      rw [sets _ ((tableAt_update_frameZero within low _).trans linked), setEntry, Function.update_self]
      bv_omega
    · have same := keeps.tables.tables index within table linked position inside
      rw [result, setEntry, Function.update_self] at same
      exact same.symm
  · rintro ⟨notZero, holds⟩
    refine ⟨?_, fun addr low => ?_⟩
    · rw [result, setEntry, ← holds, Function.update_eq_self]
      exact .refl _
    · have other : addr ≠ entryAddr table position := by
        rintro rfl
        have aligned := dvd_of_tableAt linked
        have positive : table.toNat ≠ 0 := fun zero => notZero (BitVec.eq_of_toNat_eq zero)
        omega
      rintro ⟨content, changed⟩
      refine changed ?_
      rw [sets _ ((tableAt_update_frameZero within low _).trans linked), setEntry,
        Function.update_of_ne other, Function.update_self]

/-- A call that links a table where there was none. -/
theorem Call.not_keepsTables_of_linked (absent : tableAt k.mem index = none)
    (linked : tableAt (call.perform k).state.mem index ≠ none) : ¬ call.KeepsTables k := by
  intro keeps
  rw [keeps.tables.tableAt_eq within] at linked
  exact linked absent

end OneCall

/-- What an allocation returns is a frame address, also when it is 0. -/
theorem dvd_pmmAllocFrame (s : Pmm) : 4096 ∣ (pmmAllocFrame s).1.toNat := by
  rcases pmmAllocFrame_cases s with ⟨-, zero, -⟩ | ⟨frame, -, address, -⟩
  · rw [zero]
    exact dvd_zero 4096
  · rw [address, pageSize]
    exact Nat.dvd_of_mod_eq_zero (by bv_omega)

/-- A cleared and linked table stays linked when one of its entries is set. A table in the
directory itself stays so for a present entry. -/
theorem tableAt_setEntry_linkTable {mem : Word → Word} {table : Word} {index position : ℕ}
    (aligned : 4096 ∣ table.toNat) (within : index < pageEntries) (inside : position < pageEntries)
    {entry : Word} (apart : table ≠ pageDirStartAddr ∨ isPresent entry = true) :
    tableAt (setEntry (linkTable mem index table) table position entry) index ≠ none := by
  have word : setEntry (linkTable mem index table) table position entry
        (entryAddr pageDirStartAddr index) =
      if pageDirStartAddr = table ∧ index = position then entry else pageEntry table 0x3 := by
    rw [setEntry, update_entryAddr aligned dvd_pageDirStartAddr inside within, linkTable, setEntry,
      Function.update_self, directoryEntry_eq aligned]
  have present : isPresent (pageEntry table 0x3) = true := isPresent_pageEntry table 0x3
  have holds : isPresent (setEntry (linkTable mem index table) table position entry
      (entryAddr pageDirStartAddr index)) = true := by
    rw [word]
    split
    · rename_i same
      exact apart.resolve_left fun other => other same.1.symm
    · exact present
  simp only [tableAt, holds, if_true]
  exact Option.some_ne_none _

/-- The call comes to `paging_map_page`, with an allocator as given. -/
def Call.EndsIn (k : Kernel) (call : Call) (pmm : Pmm) (virtualAddr physicalAddr flags : Word) : Prop :=
  ∀ mem, ∃ next : Kernel, next.mem = mem ∧ next.pmm = pmm ∧
    next.panikState.mode = k.panikState.mode ∧
    call.perform { k with mem } = pagingMapPage virtualAddr physicalAddr flags next

section EndsIn

variable {k : Kernel} {call : Call} {pmm : Pmm} {virtualAddr physicalAddr flags : Word}
  (ends : call.EndsIn k pmm virtualAddr physicalAddr flags)
include ends

/-- With a linked table the call sets an entry, or the store faults. -/
theorem Call.EndsIn.keepsTables_linked_iff {table : Word}
    (linked : tableAt k.mem (pdirIndex virtualAddr) = some table) :
    call.KeepsTables k ↔ identityLimit ≤ table ∨ table ≠ 0 ∧
      k.mem (entryAddr table (ptableIndex virtualAddr)) = pageEntry physicalAddr flags := by
  have within := pdirIndex_lt virtualAddr
  by_cases low : table < identityLimit
  · rw [or_iff_right (BitVec.not_le.mpr low)]
    refine Call.keepsTables_setEntry_iff within linked (ptableIndex_lt virtualAddr) fun mem same => ?_
    obtain ⟨next, rfl, -, -, result⟩ := ends mem
    rw [result, pagingMapPage_linked physicalAddr flags same low]
    rfl
  · refine iff_of_true (Call.keepsTables_of_untouched within fun mem same => ?_)
      (.inl (BitVec.not_lt.mp low))
    obtain ⟨next, rfl, -, -, result⟩ := ends mem
    rw [result, pagingMapPage_linked_high physicalAddr flags (same.trans linked) low]
    rfl

/-- Without a table the call links one, unless it stops for lack of a frame or at a frame outside
of the identity-mapped memory. -/
theorem Call.EndsIn.keepsTables_absent_iff (absent : tableAt k.mem (pdirIndex virtualAddr) = none)
    (apart : (pmmAllocFrame pmm).1 ≠ pageDirStartAddr ∨ isPresent flags = true) :
    call.KeepsTables k ↔ (pmmAllocFrame pmm).1 = 0 ∧ k.panikState.mode = .normal ∨
      identityLimit ≤ (pmmAllocFrame pmm).1 := by
  have within := pdirIndex_lt virtualAddr
  by_cases low : (pmmAllocFrame pmm).1 < identityLimit
  · rw [or_iff_left (BitVec.not_le.mpr low)]
    constructor
    · intro keeps
      by_contra goesOn
      obtain ⟨next, same, rfl, mode, result⟩ := ends k.mem
      have test : (pmmAllocFrame next.pmm).1 = 0 → next.panikState.mode = .test := fun zero =>
        mode.trans (k.panikState.mode.eq_normal_or_test.resolve_left fun normal => goesOn ⟨zero, normal⟩)
      obtain ⟨panikState, -, -, mapped⟩ :=
        pagingMapPage_goesOn physicalAddr flags (same ▸ absent) test low
      refine Call.not_keepsTables_of_linked within absent ?_ keeps
      have ran : call.perform k = _ := result.trans mapped
      rw [ran, Machine.state_ok]
      refine tableAt_setEntry_linkTable (dvd_pmmAllocFrame _) within (ptableIndex_lt virtualAddr) ?_
      rw [isPresent_pageEntry]
      exact apart
    · rintro ⟨failure, normal⟩
      refine Call.keepsTables_of_untouched within fun mem same => ?_
      obtain ⟨next, rfl, rfl, mode, result⟩ := ends mem
      obtain ⟨panikState, -, stops⟩ := pagingMapPage_exhausted physicalAddr flags (same.trans absent)
        (mode.trans normal) failure
      rw [result, stops]
      rfl
  · refine iff_of_true (Call.keepsTables_of_untouched within fun mem same => ?_)
      (.inr (BitVec.not_lt.mp low))
    obtain ⟨next, rfl, rfl, -, result⟩ := ends mem
    have success : (pmmAllocFrame next.pmm).1 ≠ 0 := fun zero => low (zero ▸ by decide)
    rw [result, pagingMapPage_high physicalAddr flags (same.trans absent) success low]
    rfl

end EndsIn

section Lacking

variable {k : Kernel}

/-- `paging_map_page` stops in normal mode, and links frame 0 in test mode. -/
theorem keepsTables_mapPage_iff {virtualAddr : Word} (lacks : LacksTable k virtualAddr)
    (physicalAddr flags : Word) :
    (Call.mapPage virtualAddr physicalAddr flags).KeepsTables k ↔ k.panikState.mode = .normal := by
  obtain ⟨absent, failure⟩ := lacks
  have ends : (Call.mapPage virtualAddr physicalAddr flags).EndsIn k k.pmm virtualAddr physicalAddr
      flags := fun mem => ⟨{ k with mem }, rfl, rfl, rfl, rfl⟩
  have apart : (pmmAllocFrame k.pmm).1 ≠ pageDirStartAddr := failure ▸ by decide
  have low : ¬ identityLimit ≤ (0 : Word) := by decide
  rw [ends.keepsTables_absent_iff absent (.inl apart), failure, or_iff_left low, and_iff_right rfl]

/-- A fault that is answered goes on with what the allocator returned, be it 0 in test mode. -/
theorem endsIn_pageFault {faultAddress : Word} {frame : PageFaultStack}
    (recovers : Recovers faultAddress frame)
    (goesOn : (pmmAllocFrame k.pmm).1 = 0 → k.panikState.mode = .test) :
    (Call.pageFault faultAddress frame).EndsIn k k.withFrame.pmm faultAddress (pmmAllocFrame k.pmm).1
      (pagePresent ||| pageWrite) := by
  intro mem
  obtain ⟨-, format, arguments, result⟩ := recovers.handled { k with mem }
  obtain ⟨panikState, mode, -, mapped⟩ := @mapNewFrame_goesOn { k with mem } faultAddress format
    arguments goesOn
  exact ⟨{ Kernel.withFrame { k with mem } with panikState }, rfl, rfl, mode, result.trans mapped⟩

/-- A fault that finds no frame stops in normal mode. -/
theorem keepsTables_pageFault_of_normal {faultAddress : Word} {frame : PageFaultStack}
    (recovers : Recovers faultAddress frame) (failure : (pmmAllocFrame k.pmm).1 = 0)
    (normal : k.panikState.mode = .normal) : (Call.pageFault faultAddress frame).KeepsTables k := by
  refine Call.keepsTables_of_untouched (pdirIndex_lt faultAddress) fun mem _ => ?_
  obtain ⟨-, format, arguments, result⟩ := recovers.handled { k with mem }
  obtain ⟨panikState, -, stops⟩ := @mapNewFrame_exhausted { k with mem } faultAddress format
    arguments normal failure
  rw [Call.perform, result, stops]
  rfl

theorem keepsTables_pageFault_iff {faultAddress : Word} {frame : PageFaultStack}
    (lacks : (Call.pageFault faultAddress frame).LacksFrame k) :
    (Call.pageFault faultAddress frame).KeepsTables k ↔
      k.panikState.mode = .normal ∨ (Call.pageFault faultAddress frame).Harmless k := by
  obtain ⟨recovers, lacks⟩ := lacks
  have present : isPresent (pagePresent ||| pageWrite) = true := by decide
  by_cases failure : (pmmAllocFrame k.pmm).1 = 0
  · rcases k.panikState.mode.eq_normal_or_test with normal | test
    · exact iff_of_true (keepsTables_pageFault_of_normal recovers failure normal) (.inl normal)
    · have ends := endsIn_pageFault recovers fun _ => test
      have notNormal : k.panikState.mode ≠ .normal := fun normal => by
        rw [normal] at test
        cases test
      rw [or_iff_right notNormal, Call.Harmless, and_iff_right failure]
      cases found : tableAt k.mem (pdirIndex faultAddress) with
      | some table =>
          rw [ends.keepsTables_linked_iff found, failure]
      | none =>
          rw [ends.keepsTables_absent_iff found (.inr present)]
          exact or_iff_right fun both => notNormal both.2
  · obtain ⟨absent, tableFailure⟩ := lacks.resolve_left failure
    have ends := endsIn_pageFault recovers fun zero => absurd zero failure
    have low : ¬ identityLimit ≤ (0 : Word) := by decide
    have notHarmless : ¬ (Call.pageFault faultAddress frame).Harmless k := fun harmless =>
      failure harmless.1
    rw [ends.keepsTables_absent_iff absent (.inr present), tableFailure, or_iff_left low,
      and_iff_right rfl, or_iff_left notHarmless]

/-- **A call that finds no frame keeps the page tables and frame 0 exactly in normal mode, or when
its store cannot be made or changes nothing.** -/
theorem Call.keepsTables_iff {call : Call} (lacks : call.LacksFrame k) :
    call.KeepsTables k ↔ k.panikState.mode = .normal ∨ call.Harmless k := by
  cases call with
  | allocFrame => exact absurd lacks not_false
  | freeFrame addr => exact absurd lacks not_false
  | setPanikMode mode => exact absurd lacks not_false
  | mapPage virtualAddr physicalAddr flags =>
      have notHarmless : ¬ (Call.mapPage virtualAddr physicalAddr flags).Harmless k := not_false
      rw [keepsTables_mapPage_iff lacks, or_iff_left notHarmless]
  | pageFault faultAddress frame => exact keepsTables_pageFault_iff lacks

/-- **A call that finds no frame keeps the page tables and frame 0 exactly when the last
`set_panik_mode` of the run left normal mode, or when its store cannot be made or changes nothing.**
Boot starts the run in normal mode (`mode_kernelMain`). -/
theorem keepsTables_run_iff {start : Kernel} {calls : List Call}
    (run : Call.performAll start calls = .ok k) {call : Call} (lacks : call.LacksFrame k) :
    call.KeepsTables k ↔
      Call.modeAfter calls start.panikState.mode = .normal ∨ call.Harmless k := by
  rw [← Call.mode_performAll run]
  exact Call.keepsTables_iff lacks

/-- **A booted kernel that never enters test mode runs out of memory safely.** -/
theorem keepsTables_of_noTest {image : KernelImage} {fuel : ℕ} {map : List E820Entry}
    {frameBitmap : ℕ → BitVec 8} {mem : Word → Word} {start : Kernel}
    (boot : kernelMain image fuel map (.loaded frameBitmap mem) = some (.ok start)) {calls : List Call}
    (noTest : .setPanikMode .test ∉ calls) (run : Call.performAll start calls = .ok k) {call : Call}
    (lacks : call.LacksFrame k) : call.KeepsTables k := by
  refine (Call.keepsTables_iff lacks).mpr (.inl ?_)
  rw [Call.mode_performAll run, mode_kernelMain boot]
  exact Call.modeAfter_of_noTest noTest

end Lacking

/-! ## An exhausted kernel -/

/-- An allocator that found nothing finds nothing the next time. -/
theorem nextFrame_pmmAllocFrame_none {s : Pmm} (found : s.nextFrame = none) :
    (pmmAllocFrame s).2.nextFrame = none := by
  obtain ⟨-, marks⟩ := marks_pmmAllocFrame_none found
  rw [Pmm.nextFrame_eq_none_iff] at found ⊢
  intro frame above below
  rw [marks.totalFrames] at below
  rw [marks.isUsed_eq fun frame member => absurd member List.not_mem_nil]
  exact found frame above below

/-- Memory from 1 MiB on that boot uses up. -/
def exhaustedMap : List E820Entry :=
  [{ base := 0x100000, length := 0x112000, type := e820TypeAvailable }]

/-- On the exhausted map boot completes, and no frame is left. -/
theorem kernelMain_exhaustedMap :
    ∃ k, kernelMain sampleImage (2 ^ 20 + 1) exhaustedMap (.loaded (fun _ => 0) fun _ => 0) =
        some (.ok k) ∧
      k.pmm.nextFrame = none ∧ tableAt k.mem (pdirIndex 0xC1001234) = none := by
  obtain ⟨t, init⟩ := exists_initFromMap exhaustedMap (by decide) (fun _ => 0)
  obtain ⟨total, -, packed⟩ := (initialized_of_pmmInit init).2.packed_of_region sampleImage
    (show (parseAndPrintE820Map exhaustedMap .empty).regions = [_] from rfl) le_rfl
    (show _ = 256 * 4096 from rfl) (show _ = (256 + 274) * 4096 from rfl)
  obtain ⟨k, boot, packedBoot, totalBoot, -, unlinked⟩ :=
    kernelMain_packed init packed le_rfl (by omega) (by decide) (fun _ => 0)
  refine ⟨k, boot, ?_, unlinked _ (by decide) (by decide) (by decide)⟩
  rw [Pmm.nextFrame_eq_none_iff]
  intro frame above below
  rw [totalBoot] at below
  exact packedBoot.used frame above (by omega)

/-- A fault in the heap of the exhausted kernel stops it with its page tables as they were. -/
theorem keepsTables_run_exhaustedMap :
    ∃ start, kernelMain sampleImage (2 ^ 20 + 1) exhaustedMap (.loaded (fun _ => 0) fun _ => 0) =
        some (.ok start) ∧
      Call.performAll start [.allocFrame] = .ok start.withFrame ∧
      (Call.pageFault 0xC1001234 zeroStack).LacksFrame start.withFrame ∧
      (Call.pageFault 0xC1001234 zeroStack).KeepsTables start.withFrame := by
  obtain ⟨start, boot, exhausted, -⟩ := kernelMain_exhaustedMap
  have failure := (marks_pmmAllocFrame_none (nextFrame_pmmAllocFrame_none exhausted)).1
  have run : Call.performAll start [.allocFrame] = .ok start.withFrame := rfl
  have lacks : (Call.pageFault 0xC1001234 zeroStack).LacksFrame start.withFrame :=
    ⟨.inl (by decide), .inl failure⟩
  exact ⟨start, boot, run, lacks, (keepsTables_run_iff run lacks).mpr (.inl (mode_kernelMain boot))⟩

/-- In test mode the same fault links frame 0 as a page table. -/
theorem not_keepsTables_exhaustedMap :
    ∃ start k,
      kernelMain sampleImage (2 ^ 20 + 1) exhaustedMap (.loaded (fun _ => 0) fun _ => 0) =
        some (.ok start) ∧
      Call.performAll start [.setPanikMode .test] = .ok k ∧ (pmmAllocFrame k.pmm).1 = 0 ∧
      (Call.pageFault 0xC1001234 zeroStack).LacksFrame k ∧
      ¬ (Call.pageFault 0xC1001234 zeroStack).KeepsTables k := by
  obtain ⟨start, boot, exhausted, absent⟩ := kernelMain_exhaustedMap
  have failure := (marks_pmmAllocFrame_none exhausted).1
  have again := (marks_pmmAllocFrame_none (nextFrame_pmmAllocFrame_none exhausted)).1
  have lacks : (Call.pageFault 0xC1001234 zeroStack).LacksFrame (setPanikMode .test start) :=
    ⟨.inl (by decide), .inl failure⟩
  refine ⟨start, setPanikMode .test start, boot, rfl, failure, lacks, fun keeps => ?_⟩
  rcases (keepsTables_pageFault_iff lacks).mp keeps with normal | ⟨-, harmless⟩
  · cases normal
  · have notLinked : tableAt (setPanikMode .test start).mem (pdirIndex 0xC1001234) = none := absent
    rw [notLinked] at harmless
    have above : identityLimit ≤ (pmmAllocFrame (pmmAllocFrame start.pmm).2).1 := harmless
    rw [again] at above
    exact absurd above (by decide)

end KernelV.Memory
