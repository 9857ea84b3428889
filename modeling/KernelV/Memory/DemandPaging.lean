import KernelV.Memory.TableFrames

/-!
# What page faults change and what they keep

A fault that the handler answers gives one page a new entry. The page lies in the heap
or in the stack above the guard page, so everything else stays as boot left it: the
guard page is never present, the first 4 MiB stay mapped to themselves, and a fault at
any other address changes no word of the paging structures and no bit of the
allocator (`faults_keep_outside`).

Inside the two ranges the handler does not look at the entry it replaces, nor at the
error code that would tell it that the page is present. So a page keeps its frame
along a run exactly when no fault that is answered is at a present page
(`keepsPages_iff`).
-/

set_option autoImplicit false

namespace KernelV.Memory

open Library

/-! ## The pages that faults can map -/

/-- An address of the kernel stack above its guard page. -/
def InStack (addr : Word) : Prop := kernelStackBottomVirt + pageSize ≤ addr ∧ addr < kernelStackTopVirt

/-- The addresses for which memory is mapped on demand. -/
def DemandPaged (addr : Word) : Prop := InHeap addr ∨ InStack addr

/-- An address of the page below the stack. -/
def InGuardPage (addr : Word) : Prop :=
  kernelStackBottomVirt ≤ addr ∧ addr < kernelStackBottomVirt + pageSize

theorem demandPaged_iff {addr : Word} :
    DemandPaged addr ↔ 0xC1000 ≤ pageNumber addr ∧ pageNumber addr < 0xC2000 ∨
      0xC2FF1 ≤ pageNumber addr ∧ pageNumber addr < 0xC3000 := by
  have heapStart : kernelHeapStart.toNat = 0xC1000000 := rfl
  have heapEnd : kernelHeapEnd.toNat = 0xC2000000 := rfl
  have stackStart : (kernelStackBottomVirt + pageSize).toNat = 0xC2FF1000 := rfl
  have stackEnd : kernelStackTopVirt.toNat = 0xC3000000 := rfl
  rw [DemandPaged, InHeap, InStack, BitVec.le_def, BitVec.lt_def, BitVec.le_def, BitVec.lt_def,
    toNat_pageNumber]
  omega

theorem inGuardPage_iff {addr : Word} : InGuardPage addr ↔ pageNumber addr = 0xC2FF0 := by
  have guardStart : kernelStackBottomVirt.toNat = 0xC2FF0000 := rfl
  have guardEnd : (kernelStackBottomVirt + pageSize).toNat = 0xC2FF1000 := rfl
  rw [InGuardPage, BitVec.le_def, BitVec.lt_def, toNat_pageNumber]
  omega

theorem Recovers.demandPaged {addr : Word} {frame : PageFaultStack} (recovers : Recovers addr frame) :
    DemandPaged addr := by
  rcases recovers with heap | ⟨stack, -⟩
  · exact .inl heap
  · exact .inr stack

/-! ## One fault -/

section Step

variable {k : Kernel}

/-- A machine that stops while it maps a frame has not touched the paging
structures. -/
theorem mem_of_mapNewFrame_error (owned : Owned k) (ample : Ample 2 k.pmm) {virtualAddr : Word}
    {format : String} {arguments : List Word} {stopped : Kernel}
    (ran : mapNewFrame virtualAddr format arguments k = .error stopped) :
    stopped.mem = k.mem := by
  obtain ⟨ownedNext, -⟩ := owned.withFrame ample
  by_cases failure : (pmmAllocFrame k.pmm).1 = 0
  · obtain ⟨panikState, -, result⟩ :=
      mapNewFrame_exhausted virtualAddr format arguments owned.normal failure
    rw [result] at ran
    cases ran
    rfl
  · rw [mapNewFrame_success virtualAddr format arguments failure] at ran
    rcases @pagingMapPage_cases virtualAddr k.withFrame (pmmAllocFrame k.pmm).1
      (pagePresent ||| pageWrite) ownedNext.apart ownedNext.normal with
      ⟨table, -, result⟩ | ⟨-, ⟨panikState, -, result⟩ | ⟨-, -, result⟩⟩
    · rw [result] at ran
      cases ran
    · rw [result] at ran
      cases ran
      rfl
    · rw [result] at ran
      cases ran

/-- **One fault maps one page of the heap or the stack, or it stops the machine with the
paging structures as they were.** -/
theorem fault_cases (owned : Owned k) (ample : Ample 2 k.pmm) (addr : Word)
    (frame : PageFaultStack) :
    (Recovers addr frame ∧ (pmmAllocFrame k.pmm).1 ≠ 0 ∧
        ∃ next, pageFaultHandler addr frame k = .ok next ∧
          MapsPage addr (pageEntry (pmmAllocFrame k.pmm).1 (pagePresent ||| pageWrite)) k.mem next.mem) ∨
      ∃ stopped, pageFaultHandler addr frame k = .error stopped ∧ SameTables k.mem stopped.mem ∧
        (¬ Recovers addr frame → stopped.pmm = k.pmm) := by
  rcases pageFaultHandler_cases addr frame k with
    ⟨recovers, -, format, arguments, result⟩ | ⟨rejected, result | ⟨physical, translated, result⟩⟩
  · cases ran : mapNewFrame addr format arguments k with
    | ok next =>
        have success : (pmmAllocFrame k.pmm).1 ≠ 0 := by
          intro failure
          obtain ⟨panikState, -, stops⟩ :=
            mapNewFrame_exhausted addr format arguments owned.normal failure
          rw [stops] at ran
          cases ran
        exact .inl ⟨recovers, success, next, result.trans ran, (owned.mapsPage_of_ok ample ran).1⟩
    | error stopped =>
        refine .inr ⟨stopped, result.trans ran, ?_, fun rejected => absurd recovers rejected⟩
        rw [mem_of_mapNewFrame_error owned ample ran]
        exact SameTables.refl _
  · exact .inr ⟨k, result, SameTables.refl _, fun _ => rfl⟩
  · have identity := translate_of_identityEntry (owned.identity 0 (by decide))
    rw [identity, Option.some.injEq] at translated
    rw [← translated] at result
    exact .inr ⟨_, result, owned.sameTables_storeZero 123, fun _ => rfl⟩

/-- A fault changes translations of demand-paged addresses only. -/
theorem walk_pageFaultHandler (owned : Owned k) (ample : Ample 2 k.pmm) (addr : Word)
    (frame : PageFaultStack) {other : Word} (outside : ¬ DemandPaged other) :
    walk (pageFaultHandler addr frame k).state.mem other = walk k.mem other := by
  rcases fault_cases owned ample addr frame with
    ⟨recovers, -, next, ran, maps⟩ | ⟨stopped, ran, same, -⟩
  · rw [ran, Machine.state_ok]
    refine maps.walk other fun samePage => outside ?_
    rw [demandPaged_iff, samePage]
    exact demandPaged_iff.mp recovers.demandPaged
  · rw [ran, Machine.state_error, same.walk_eq]

end Step

/-! ## Boot -/

/-- Boot maps the stack above its guard page, and the first 4 MiB. -/
theorem walk_of_kernelMain {image : KernelImage} {fuel : ℕ} {map : List E820Entry}
    {frameBitmap : ℕ → BitVec 8} {mem : Word → Word} {k : Kernel}
    (boot : kernelMain image fuel map (.loaded frameBitmap mem) = some (.ok k)) {addr : Word}
    (high : identityLimit ≤ addr) (outside : ¬ DemandPaged addr) : walk k.mem addr = none := by
  obtain ⟨t, init, -⟩ := kernelMain_eq_some_iff.mp boot
  have ample : Ample 32 (bootReservations image t) := (ample_of_initFromMap init).mono (by decide)
  have start : walk (setupPaging image t (.loaded frameBitmap mem)).mem addr = none := by
    refine (refines_pagingInit _).unmapped addr (if_neg fun low => ?_)
    exact BitVec.not_lt.mpr high (pageNumber_lt_iff.mp low)
  refine kernelMain_induction (fun k => walk k.mem addr = none) init ample boot start
    fun off member k next owned ample absent ran => ?_
  rw [mapStackPage_eq] at ran
  cases mapped : mapNewFrame (kernelStackBottomVirt + off) "Stack frame allocation failed" [] k with
  | error stopped =>
      rw [mapped] at ran
      cases ran
  | ok middle =>
      rw [mapped] at ran
      cases ran
      refine ((owned.mapsPage_of_ok ample mapped).1.walk addr fun samePage => outside ?_).trans absent
      have bounds := toNat_stackAddr member
      rw [demandPaged_iff, samePage, toNat_pageNumber]
      omega

/-! ## Runs of faults -/

/-- Any fault may come next. -/
def AnyFault (_ : Kernel) (_ : Word) : Prop := True

theorem FaultRun.walk_outside {permitted : Kernel → Word → Prop} {start : Kernel}
    {machine : Machine Kernel} (run : FaultRun permitted start machine) (owned : Owned start)
    (ample : ∀ rounds, Ample rounds start.pmm) {addr : Word} (outside : ¬ DemandPaged addr) :
    walk machine.state.mem addr = walk start.mem addr := by
  induction run with
  | booted => rfl
  | fault before faultAddress frame permits ih =>
      obtain ⟨ownedBefore, ampleBefore⟩ := before.owned owned ample
      exact (walk_pageFaultHandler ownedBefore (ampleBefore 2) faultAddress frame outside).trans ih

/-- **Faults leave everything outside the demand-paged ranges as boot left it.** In
every state that faults of any kind lead to after boot, the addresses outside the heap
and the stack are translated as after boot, the guard page is not present, and the first
4 MiB are mapped to themselves. A fault at an address outside the two ranges keeps the
allocator and every word of the directory and the tables. -/
theorem faults_keep_outside {image : KernelImage} {fuel : ℕ} {map : List E820Entry}
    {frameBitmap : ℕ → BitVec 8} {mem : Word → Word} {t : Pmm}
    (init : initFromMap fuel map frameBitmap = some t) (count : t.totalFrames ≤ t.maxFrameIdx)
    {k : Kernel} (boot : kernelMain image fuel map (.loaded frameBitmap mem) = some (.ok k))
    {machine : Machine Kernel} (run : FaultRun AnyFault k machine) :
    (∀ addr, ¬ DemandPaged addr → walk machine.state.mem addr = walk k.mem addr) ∧
      (∀ addr, InGuardPage addr → walk machine.state.mem addr = none) ∧
      (∀ addr < identityLimit,
        entryAt machine.state.mem addr = some (identityEntry (pageNumber addr)) ∧
          translate machine.state.mem addr = some addr) ∧
      ∀ last, machine = .ok last → ∀ addr frame, ¬ DemandPaged addr →
        (pageFaultHandler addr frame last).state.pmm = last.pmm ∧
          SameTables last.mem (pageFaultHandler addr frame last).state.mem := by
  have booted : ∀ rounds, Owned k ∧ Ample rounds k.pmm := fun rounds =>
    owned_of_kernelMain init (ample_bootReservations init count _) boot
  have start : ∀ rounds, Ample rounds k.pmm := fun rounds => (booted rounds).2
  obtain ⟨owned, ample⟩ := run.owned (booted 0).1 start
  have kept : ∀ addr, ¬ DemandPaged addr → walk machine.state.mem addr = walk k.mem addr :=
    fun addr outside => run.walk_outside (booted 0).1 start outside
  refine ⟨kept, fun addr guard => ?_, fun addr low => ?_, ?_⟩
  · rw [inGuardPage_iff] at guard
    have outside : ¬ DemandPaged addr := by
      rw [demandPaged_iff]
      omega
    have high : identityLimit ≤ addr := by
      rw [← BitVec.not_lt, ← pageNumber_lt_iff, guard]
      decide
    rw [kept addr outside]
    exact walk_of_kernelMain boot high outside
  · exact ⟨owned.identity addr low, translate_of_identityEntry (owned.identity addr low)⟩
  · rintro last rfl addr frame outside
    have ownedLast : Owned last := owned
    rcases fault_cases ownedLast (ample 2) addr frame with
      ⟨recovers, -⟩ | ⟨stopped, ran, same, rejected⟩
    · exact absurd recovers.demandPaged outside
    · rw [ran, Machine.state_error]
      exact ⟨rejected fun recovers => outside recovers.demandPaged, same⟩

/-- On the roomy map the guard page is not present after a fault in the heap. -/
theorem faults_keep_outside_roomyMap :
    ∃ t k, initFromMap (2 ^ 20 + 1) roomyMap (fun _ => 0) = some t ∧
      t.totalFrames ≤ t.maxFrameIdx ∧
      kernelMain sampleImage (2 ^ 20 + 1) roomyMap (.loaded (fun _ => 0) fun _ => 0) = some (.ok k) ∧
      FaultRun AnyFault k (pageFaultHandler 0xC1001234 zeroStack k) ∧
      walk (pageFaultHandler 0xC1001234 zeroStack k).state.mem 0xC2FF0123 = none := by
  obtain ⟨t, k, init, count, boot, -⟩ := kernelMain_roomyMap
  have run : FaultRun AnyFault k (pageFaultHandler 0xC1001234 zeroStack k) :=
    FaultRun.booted.fault 0xC1001234 zeroStack trivial
  obtain ⟨-, guard, -⟩ := faults_keep_outside init count boot run
  refine ⟨t, k, init, count, boot, run, guard 0xC2FF0123 ?_⟩
  rw [inGuardPage_iff]
  decide

/-! ## Present pages -/

/-- One page fault. -/
structure Fault where
  faultAddress : Word
  frame : PageFaultStack

/-- A sequence of faults, up to the one that stops the machine. -/
def handleFaults : List Fault → Kernel → Machine Kernel
  | [], k => .ok k
  | fault :: faults, k =>
      (pageFaultHandler fault.faultAddress fault.frame k).bind (handleFaults faults)

theorem handleFaults_append (before later : List Fault) (k : Kernel) :
    handleFaults (before ++ later) k = (handleFaults before k).bind (handleFaults later) := by
  induction before generalizing k with
  | nil => rfl
  | cons fault before ih =>
      rw [List.cons_append, handleFaults, handleFaults]
      cases pageFaultHandler fault.faultAddress fault.frame k with
      | error stopped => rfl
      | ok next => exact ih next

theorem handleFaults_singleton (fault : Fault) (k : Kernel) :
    handleFaults [fault] k = pageFaultHandler fault.faultAddress fault.frame k := by
  rw [handleFaults]
  cases pageFaultHandler fault.faultAddress fault.frame k with
  | error stopped => rfl
  | ok next => rfl

/-- Every fault of the sequence has the property in the state it occurs in. -/
def Along (property : Kernel → Fault → Prop) (faults : List Fault) (k : Kernel) : Prop :=
  ∀ before fault after, before ++ fault :: after = faults →
    ∀ middle, handleFaults before k = .ok middle → property middle fault

section Along

variable {property : Kernel → Fault → Prop} {k : Kernel}

theorem Along.head {fault : Fault} {faults : List Fault} (along : Along property (fault :: faults) k) :
    property k fault :=
  along [] fault faults rfl k rfl

theorem Along.append_right {before later : List Fault} (along : Along property (before ++ later) k)
    {middle : Kernel} (reached : handleFaults before k = .ok middle) : Along property later middle := by
  rintro first fault after rfl last ran
  refine along (before ++ first) fault after (List.append_assoc _ _ _) last ?_
  rw [handleFaults_append, reached]
  exact ran

theorem Along.append_left {before later : List Fault} (along : Along property (before ++ later) k) :
    Along property before k := by
  rintro first fault after rfl middle ran
  refine along first fault (after ++ later) ?_ middle ran
  rw [List.append_assoc, List.cons_append]

end Along

/-- Every present entry is still there. -/
def KeepsPages (mem mem' : Word → Word) : Prop :=
  ∀ addr entry, walk mem addr = some entry → walk mem' addr = some entry

/-- If the handler answers the fault, the page is not present or no frame is free. -/
def Harmless (k : Kernel) (fault : Fault) : Prop :=
  Recovers fault.faultAddress fault.frame → NotPresent k fault.faultAddress ∨
    ∀ frame, 1 ≤ frame → frame < k.pmm.totalFrames.toNat → k.pmm.isUsed frame = true

/-- The pages between the start of the heap and the top of the stack without a present
entry. -/
def unmappedPages (mem : Word → Word) : Finset ℕ :=
  (Finset.Ico 0xC1000 0xC3000).filter fun page => walk mem (BitVec.ofNat 32 page * pageSize) = none

/-- Every frame is owned once, with two frames in hand for every page without an entry. -/
structure Provided (k : Kernel) : Prop where
  owned : Owned k
  ample : Ample (2 * (unmappedPages k.mem).card + 2) k.pmm

theorem Provided.two {k : Kernel} (provided : Provided k) : Ample 2 k.pmm :=
  provided.ample.mono (Nat.le_add_left 2 _)

/-- Two frames for each of the 8192 pages of the heap and the stack are enough. -/
theorem Owned.provided {k : Kernel} (owned : Owned k) (ample : Ample 16386 k.pmm) : Provided k := by
  have pages : (unmappedPages k.mem).card ≤ 8192 :=
    (Finset.card_filter_le _ _).trans (by rw [Nat.card_Ico])
  exact ⟨owned, ample.mono (by omega)⟩

/-- Boot leaves two frames for every page of the heap and the stack. -/
theorem provided_of_kernelMain {image : KernelImage} {fuel : ℕ} {map : List E820Entry}
    {frameBitmap : ℕ → BitVec 8} {mem : Word → Word} {k : Kernel}
    (boot : kernelMain image fuel map (.loaded frameBitmap mem) = some (.ok k)) : Provided k := by
  obtain ⟨t, init, -⟩ := kernelMain_eq_some_iff.mp boot
  have ample : Ample (16386 + 32) (bootReservations image t) :=
    (ample_of_initFromMap init).mono (by decide)
  obtain ⟨owned, enough⟩ := owned_of_kernelMain init ample boot
  exact owned.provided enough

section Step

variable {k : Kernel} {fault : Fault}

/-- A fault without a free frame stops the machine. -/
theorem alloc_eq_zero_of_used
    (used : ∀ frame, 1 ≤ frame → frame < k.pmm.totalFrames.toNat → k.pmm.isUsed frame = true) :
    (pmmAllocFrame k.pmm).1 = 0 :=
  (marks_pmmAllocFrame_none (Pmm.nextFrame_eq_none_iff.mpr used)).1

/-- A page that gets its first entry leaves the other present pages alone. -/
theorem keepsPages_of_mapsPage {mem mem' : Word → Word} {virtualAddr entry : Word}
    (maps : MapsPage virtualAddr entry mem mem') (absent : walk mem virtualAddr = none) :
    KeepsPages mem mem' := by
  intro addr old present
  rw [maps.walk addr]
  · exact present
  · intro samePage
    rw [walk_congr mem samePage, absent] at present
    exact Option.some_ne_none _ present.symm

/-- A page that the handler maps is one page less to be mapped. -/
theorem card_unmappedPages_lt {mem mem' : Word → Word} {physicalAddr : Word}
    (recovers : Recovers fault.faultAddress fault.frame)
    (maps : MapsPage fault.faultAddress (pageEntry physicalAddr (pagePresent ||| pageWrite)) mem mem')
    (absent : walk mem fault.faultAddress = none) :
    (unmappedPages mem').card < (unmappedPages mem).card := by
  have inside : pageNumber fault.faultAddress ∈ Finset.Ico 0xC1000 0xC3000 := by
    have ranges := demandPaged_iff.mp recovers.demandPaged
    rw [Finset.mem_Ico]
    omega
  refine card_absent_lt (fun page member => ?_) maps (isPresent_pageEntry _ _) inside absent
  have bound := (Finset.mem_Ico.mp member).2
  omega

/-- **A harmless fault keeps every present page, and the frames last for the rest.** -/
theorem Provided.harmless (provided : Provided k) (harmless : Harmless k fault) :
    KeepsPages k.mem (pageFaultHandler fault.faultAddress fault.frame k).state.mem ∧
      Owned (pageFaultHandler fault.faultAddress fault.frame k).state ∧
      ∀ next, pageFaultHandler fault.faultAddress fault.frame k = .ok next → Provided next := by
  have ownedNext := provided.owned.pageFaultHandler provided.two fault.faultAddress fault.frame
  rcases fault_cases provided.owned provided.two fault.faultAddress fault.frame with
    ⟨recovers, success, next, ran, maps⟩ | ⟨stopped, ran, same, -⟩
  · have absent : NotPresent k fault.faultAddress := by
      rcases harmless recovers with absent | used
      · exact absent
      · exact absurd (alloc_eq_zero_of_used used) success
    rw [ran, Machine.state_ok]
    rw [ran, Machine.state_ok] at ownedNext
    refine ⟨keepsPages_of_mapsPage maps absent, ownedNext, fun last same => ?_⟩
    cases same
    have fewer := card_unmappedPages_lt recovers maps absent
    have left : Ample (2 * (unmappedPages next.mem).card + 2 + 2) k.pmm :=
      provided.ample.mono (by omega)
    have after := left.pageFaultHandler provided.owned fault.faultAddress fault.frame
    rw [ran] at after
    exact ⟨ownedNext, after⟩
  · rw [ran, Machine.state_error]
    rw [ran, Machine.state_error] at ownedNext
    refine ⟨fun addr entry present => ?_, ownedNext, fun next same => ?_⟩
    · rw [same.walk_eq]
      exact present
    · cases same

/-- A fault that is not harmless gives a present page another frame. -/
theorem Provided.harmless_of_keepsPages (provided : Provided k)
    (keeps : KeepsPages k.mem (pageFaultHandler fault.faultAddress fault.frame k).state.mem) :
    Harmless k fault := by
  intro recovers
  by_contra harmful
  push Not at harmful
  obtain ⟨present, frame, positive, counted, free⟩ := harmful
  obtain ⟨old, walked⟩ := Option.ne_none_iff_exists'.mp present
  have success : (pmmAllocFrame k.pmm).1 ≠ 0 := by
    intro failure
    have nothing := provided.owned.nextFrame_eq_none provided.two failure
    exact free (Pmm.nextFrame_eq_none_iff.mp nothing frame positive counted)
  obtain ⟨-, failure | ⟨spare, unused⟩⟩ := provided.owned.withFrame provided.two
  · exact success failure
  obtain ⟨high, format, arguments, result⟩ := recovers.handled k
  obtain ⟨table, linked⟩ : ∃ table, tableAt k.mem (pdirIndex fault.faultAddress) = some table := by
    cases found : tableAt k.mem (pdirIndex fault.faultAddress) with
    | some table => exact ⟨table, rfl⟩
    | none => exact absurd (notPresent_of_absent found) present
  have low := provided.owned.apart.low _ (pdirIndex_lt _) table linked
  have maps := mapsPage_setEntry provided.owned.apart linked
    (pageEntry (pmmAllocFrame k.pmm).1 (pagePresent ||| pageWrite))
  rw [result, mapNewFrame_success _ _ _ success,
    pagingMapPage_linked (k := k.withFrame) _ _ linked low] at keeps
  have kept := keeps fault.faultAddress old walked
  have found := maps.mapped fault.faultAddress rfl
  -- The entry still there would name the new frame, whose bit was clear.
  have same : old = pageEntry (pmmAllocFrame k.pmm).1 (pagePresent ||| pageWrite) := by
    change walk (setEntry k.mem table _ _) _ = _ at kept
    rw [walk, found, Option.filter_eq_some_iff, Option.some.injEq] at kept
    exact kept.1.symm
  have taken := provided.owned.exclusive.taken (.page (pageNumber fault.faultAddress))
    (entryFrame old) ⟨fault.faultAddress, old, high, rfl, walked, rfl⟩
  have used := taken.2
  rw [same, spare.entryFrame_pageEntry, unused] at used
  exact absurd used (by decide)

end Step

/-- **Harmless faults keep every present page.** -/
theorem Provided.faults {k : Kernel} (provided : Provided k) {faults : List Fault}
    (harmless : Along Harmless faults k) :
    KeepsPages k.mem (handleFaults faults k).state.mem ∧
      ∀ last, handleFaults faults k = .ok last → Provided last := by
  induction faults generalizing k with
  | nil =>
      refine ⟨fun _ _ present => present, fun last same => ?_⟩
      cases same
      exact provided
  | cons fault faults ih =>
      obtain ⟨keeps, -, next⟩ := provided.harmless harmless.head
      rw [handleFaults]
      cases ran : pageFaultHandler fault.faultAddress fault.frame k with
      | error stopped =>
          rw [ran] at keeps
          exact ⟨keeps, fun last same => by cases same⟩
      | ok middle =>
          have reached : handleFaults [fault] k = .ok middle := by
            rw [handleFaults_singleton, ran]
          have rest : Along Harmless ([fault] ++ faults) k := harmless
          obtain ⟨keepsRest, last⟩ := ih (next middle ran) (rest.append_right reached)
          rw [ran] at keeps
          exact ⟨fun addr entry present => keepsRest addr entry (keeps addr entry present), last⟩

/-- In every state of the run the present pages keep their entries from there on. -/
def KeepsPagesAlong (faults : List Fault) (k : Kernel) : Prop :=
  ∀ before later, before ++ later <+: faults → ∀ middle, handleFaults before k = .ok middle →
    KeepsPages middle.mem (handleFaults later middle).state.mem

theorem Provided.along_of_keepsPages {k : Kernel} (provided : Provided k) {faults : List Fault}
    (keeps : KeepsPagesAlong faults k) : Along Harmless faults k := by
  induction faults generalizing k with
  | nil =>
      intro before fault after split
      exact absurd split (List.append_ne_nil_of_right_ne_nil before (List.cons_ne_nil fault after))
  | cons fault faults ih =>
      have head : Harmless k fault := by
        apply provided.harmless_of_keepsPages
        rw [← handleFaults_singleton]
        exact keeps [] [fault] (List.prefix_append [fault] faults) k rfl
      intro before other after split middle reached
      cases before with
      | nil =>
          cases split
          cases reached
          exact head
      | cons first before =>
          obtain ⟨rfl, rest⟩ := List.cons.inj split
          rw [handleFaults] at reached
          cases ran : pageFaultHandler first.faultAddress first.frame k with
          | error stopped =>
              rw [ran] at reached
              cases reached
          | ok next =>
              rw [ran] at reached
              refine ih ((provided.harmless head).2.2 next ran) ?_ before other after rest middle reached
              intro earlier later within last arrived
              refine keeps (first :: earlier) later ?_ last ?_
              · exact List.cons_prefix_cons.mpr ⟨rfl, within⟩
              · rw [handleFaults, ran]
                exact arrived

/-- **Present pages keep their frames along a run exactly when every fault that is answered
is at a page without a present entry, or finds no free frame.** -/
theorem keepsPages_iff {image : KernelImage} {fuel : ℕ} {map : List E820Entry}
    {frameBitmap : ℕ → BitVec 8} {mem : Word → Word} {k : Kernel}
    (boot : kernelMain image fuel map (.loaded frameBitmap mem) = some (.ok k))
    (faults : List Fault) : KeepsPagesAlong faults k ↔ Along Harmless faults k := by
  have provided := provided_of_kernelMain boot
  refine ⟨provided.along_of_keepsPages, ?_⟩
  rintro harmless before later ⟨rest, rfl⟩ middle reached
  have start := harmless.append_left
  obtain ⟨-, providedMiddle⟩ := provided.faults start.append_left
  exact ((providedMiddle middle reached).faults (start.append_right reached)).1

/-- On the roomy map one fault in the heap is harmless. -/
theorem keepsPages_roomyMap :
    ∃ k, kernelMain sampleImage (2 ^ 20 + 1) roomyMap (.loaded (fun _ => 0) fun _ => 0) = some (.ok k) ∧
      KeepsPagesAlong [⟨0xC1001234, zeroStack⟩] k := by
  obtain ⟨t, k, -, -, boot, -, -, absent⟩ := kernelMain_roomyMap
  refine ⟨k, boot, (keepsPages_iff boot _).mpr ?_⟩
  intro before fault after split middle reached
  cases before with
  | nil =>
      cases split
      cases reached
      exact fun _ => .inl (notPresent_of_absent absent)
  | cons first before =>
      exact absurd (List.cons.inj split).2
        (List.append_ne_nil_of_right_ne_nil before (List.cons_ne_nil fault after))

/-- A second fault at the same address, now with the present bit in its error code, takes
frame 276 for the page whose data is in frame 274. -/
theorem replaced_page_roomyMap :
    ∃ k first second,
      kernelMain sampleImage (2 ^ 20 + 1) roomyMap (.loaded (fun _ => 0) fun _ => 0) = some (.ok k) ∧
      pageFaultHandler 0xC1001234 zeroStack k = .ok first ∧
      pageFaultHandler 0xC1001234 { zeroStack with errorCode := 1 } first = .ok second ∧
      walk first.mem 0xC1001234 = some 0x112003 ∧ walk second.mem 0xC1001234 = some 0x114003 := by
  obtain ⟨t, k, -, -, boot, packed, room, absent⟩ := kernelMain_roomyMap
  have provided := provided_of_kernelMain boot
  have heap : InHeap 0xC1001234 := by decide
  have fresh : FreshTable k.mem (BitVec.ofNat 32 275 * pageSize) :=
    provided.owned.freshTable_of_packed packed (by decide) (by omega) (by decide) (by decide)
  have mapsFirst := mapsPage_linkTable provided.owned.apart fresh absent
    (pageEntry (BitVec.ofNat 32 274 * pageSize) (pagePresent ||| pageWrite))
  have handledFirst := pageFaultHandler_heap heap zeroStack k
  rw [mapNewFrame_packed_absent _ _ packed (by omega) (by decide) absent] at handledFirst
  have walkedFirst := congrArg (Option.filter isPresent) (mapsFirst.mapped 0xC1001234 rfl)
  obtain ⟨-, -, -, packedFirst⟩ := pmmAllocFrame_twice packed (by omega) (by decide)
  have roomFirst : 276 < (pmmAllocFrame (pmmAllocFrame k.pmm).2).2.totalFrames.toNat := by
    rw [totalFrames_pmmAllocFrame, totalFrames_pmmAllocFrame]
    exact room
  -- From here on only the allocator and the memory of the first state matter.
  obtain ⟨first, ran, pmmFirst, memFirst⟩ : ∃ first, pageFaultHandler 0xC1001234 zeroStack k = .ok first ∧
      first.pmm = (pmmAllocFrame (pmmAllocFrame k.pmm).2).2 ∧
      first.mem = setEntry (linkTable k.mem (pdirIndex 0xC1001234) (BitVec.ofNat 32 275 * pageSize))
        (BitVec.ofNat 32 275 * pageSize) (ptableIndex 0xC1001234)
        (pageEntry (BitVec.ofNat 32 274 * pageSize) (pagePresent ||| pageWrite)) :=
    ⟨_, handledFirst, rfl, rfl⟩
  rw [← pmmFirst] at packedFirst roomFirst
  rw [← memFirst] at mapsFirst walkedFirst
  have linked : tableAt first.mem (pdirIndex 0xC1001234) = some (BitVec.ofNat 32 275 * pageSize) := by
    rw [memFirst, tableAt_setEntry fresh.aligned fresh.notDirectory (ptableIndex_lt _) _ (pdirIndex_lt _),
      tableAt_linkTable fresh.aligned fresh.notDirectory (pdirIndex_lt _) (pdirIndex_lt _), if_pos rfl]
  have mapsSecond := mapsPage_setEntry mapsFirst.apart linked
    (pageEntry (BitVec.ofNat 32 276 * pageSize) (pagePresent ||| pageWrite))
  have walkedSecond := congrArg (Option.filter isPresent) (mapsSecond.mapped 0xC1001234 rfl)
  have handledSecond := pageFaultHandler_heap heap { zeroStack with errorCode := 1 } first
  rw [mapNewFrame_packed_linked _ _ packedFirst roomFirst (by decide) linked fresh.low] at handledSecond
  exact ⟨k, first, _, boot, ran, handledSecond, walkedFirst, walkedSecond⟩

end KernelV.Memory
