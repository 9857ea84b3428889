import KernelV.Memory.TableFrames

/-!
# Boot, frame by frame

The allocator hands out its free frames in order. So what boot does with them can be read off
their list after the reservations: two frames are kept unused, the third becomes the first page of
the stack, the fourth its page table, and fourteen more the other pages.

Boot completes exactly if there are eighteen free frames and the fourth is low. Otherwise it stops
with one of two messages, or with none when the table cannot be reached (`kernelMain_ends`).
-/

set_option autoImplicit false

namespace KernelV.Memory

open Library

/-! ## The free frames in order -/

namespace Pmm

/-- The frames that `pmm_alloc_frame` can find, the lowest first. -/
def freeList (s : Pmm) : List ℕ := unusedFrom s.isUsed 1 (s.totalFrames.toNat - 1)

theorem head?_freeList (s : Pmm) : s.freeList.head? = s.nextFrame := head?_unusedFrom ..

end Pmm

/-- **An allocation takes the first free frame.** -/
theorem freeList_pmmAllocFrame (s : Pmm) : (pmmAllocFrame s).2.freeList = s.freeList.tail := by
  rw [Pmm.freeList, isUsed_pmmAllocFrame, totalFrames_pmmAllocFrame, unusedFrom_fitStep]
  rfl

/-- Setting bits that are set already keeps the free frames. -/
theorem Marks.freeList_eq {s t : Pmm} {frames accessed : List ℕ} (marks : Marks frames accessed s t)
    (used : ∀ frame ∈ frames, s.isUsed frame = true) : t.freeList = s.freeList := by
  have same : t.isUsed = s.isUsed := funext fun frame => marks.isUsed_eq used frame
  rw [Pmm.freeList, Pmm.freeList, same, marks.totalFrames]

section OneKernel

variable {k : Kernel} {rounds : ℕ}

/-- Without a free frame an allocation fails. -/
theorem pmmAllocFrame_of_nil {s : Pmm} (nothing : s.freeList = []) : (pmmAllocFrame s).1 = 0 := by
  have head := s.head?_freeList
  rw [nothing] at head
  exact (marks_pmmAllocFrame_none head.symm).1

/-- With free frames it returns the address of the first one. -/
theorem Owned.pmmAllocFrame_of_cons (owned : Owned k) (ample : Ample (rounds + 1) k.pmm) {frame : ℕ}
    {rest : List ℕ} (order : k.pmm.freeList = frame :: rest) :
    (pmmAllocFrame k.pmm).1 = BitVec.ofNat 32 frame * pageSize ∧ (pmmAllocFrame k.pmm).1 ≠ 0 ∧
      frame < 2 ^ 20 := by
  have found := k.pmm.head?_freeList
  rw [order] at found
  have address := (marks_pmmAllocFrame found.symm).1
  obtain ⟨high, value, -⟩ := owned.nextFrame ample found.symm
  refine ⟨address, fun zero => ?_, ample.nextFrame_lt found.symm⟩
  rw [← address, zero] at value
  change 0 = frame * 4096 at value
  omega

/-- Behind the allocation the others are left. -/
theorem freeList_withFrame {frame : ℕ} {rest : List ℕ} (order : k.pmm.freeList = frame :: rest) :
    k.withFrame.pmm.freeList = rest := by
  change (pmmAllocFrame k.pmm).2.freeList = rest
  rw [freeList_pmmAllocFrame, order, List.tail_cons]

end OneKernel

/-! ## One page -/

/-- The entry of a page that was given a frame. -/
def frameEntry (frame : ℕ) : Word :=
  pageEntry (BitVec.ofNat 32 frame * pageSize) (pagePresent ||| pageWrite)

/-- The machine has stopped with a message, or without one. -/
def StopsWith (machine : Machine Kernel) (message : Option (String × List Word)) : Prop :=
  ∃ stopped, machine = .error stopped ∧ stopped.panikState.lastPanikMsg = message

section NewFrame

variable {k : Kernel} {virtualAddr : Word} {format : String} {arguments : List Word}

/-- Without a free frame the machine stops. -/
theorem mapNewFrame_nil (normal : k.panikState.mode = .normal) (nothing : k.pmm.freeList = []) :
    StopsWith (mapNewFrame virtualAddr format arguments k) (some (format, arguments)) := by
  have failure := pmmAllocFrame_of_nil nothing
  simp only [mapNewFrame, panikIfNull, failure, if_true, panik, normal, bind, Except.bind]
  exact ⟨_, rfl, rfl⟩

variable (owned : Owned k) (ample : Ample 2 k.pmm)
include owned ample

/-- A page with a linked table takes the first free frame. -/
theorem mapNewFrame_linked {table : Word} (linked : tableAt k.mem (pdirIndex virtualAddr) = some table)
    {frame : ℕ} {rest : List ℕ} (order : k.pmm.freeList = frame :: rest) :
    ∃ next, mapNewFrame virtualAddr format arguments k = .ok next ∧
      MapsPage virtualAddr (frameEntry frame) k.mem next.mem ∧ next.pmm.freeList = rest ∧
      ∀ index < pageEntries, tableAt next.mem index = tableAt k.mem index := by
  obtain ⟨address, success, -⟩ := owned.pmmAllocFrame_of_cons ample order
  have low := owned.apart.low _ (pdirIndex_lt _) table linked
  have notDirectory := owned.apart.ne_pageDirStartAddr (pdirIndex_lt _) linked
  have ran := mapNewFrame_success virtualAddr format arguments success
  rw [pagingMapPage_linked (k := k.withFrame) _ _ linked low, address] at ran
  have maps := (owned.mapsPage_of_ok ample ran).1
  rw [address] at maps
  exact ⟨_, ran, maps, freeList_withFrame order, fun index within =>
    tableAt_setEntry (dvd_of_tableAt linked) notDirectory (ptableIndex_lt _) _ within⟩

variable (absent : tableAt k.mem (pdirIndex virtualAddr) = none) {frame : ℕ}
include absent

/-- A page without a linked table takes two, and the second becomes the table. -/
theorem mapNewFrame_absent {table : ℕ} {rest : List ℕ} (order : k.pmm.freeList = frame :: table :: rest)
    (lowTable : table < 1024) :
    ∃ next, mapNewFrame virtualAddr format arguments k = .ok next ∧
      MapsPage virtualAddr (frameEntry frame) k.mem next.mem ∧ next.pmm.freeList = rest ∧
      ∀ index < pageEntries, tableAt next.mem index =
        if index = pdirIndex virtualAddr then some (BitVec.ofNat 32 table * pageSize)
        else tableAt k.mem index := by
  obtain ⟨address, success, -⟩ := owned.pmmAllocFrame_of_cons ample order
  obtain ⟨ownedNext, -⟩ := owned.withFrame ample
  have ampleNext : Ample 1 k.withFrame.pmm := ample.alloc
  have orderNext := freeList_withFrame order
  obtain ⟨tableAddress, tableSuccess, small⟩ := ownedNext.pmmAllocFrame_of_cons ampleNext orderNext
  have low : (pmmAllocFrame k.withFrame.pmm).1 < identityLimit := by
    rw [tableAddress, frameAddr_lt_identityLimit_iff small]
    exact lowTable
  have found := k.withFrame.pmm.head?_freeList
  rw [orderNext] at found
  have notDirectory := frameAddr_ne_pageDirStartAddr (ownedNext.nextFrame ampleNext found.symm).1 small
  have aligned : 4096 ∣ (BitVec.ofNat 32 table * pageSize).toNat := by
    rw [toNat_frameAddr small]
    exact Nat.dvd_mul_left _ _
  have ran := mapNewFrame_success virtualAddr format arguments success
  rw [pagingMapPage_new (k := k.withFrame) _ _ absent tableSuccess low, tableAddress, address] at ran
  have maps := (owned.mapsPage_of_ok ample ran).1
  rw [address] at maps
  exact ⟨_, ran, maps, freeList_withFrame orderNext, fun index within =>
    (tableAt_setEntry aligned notDirectory (ptableIndex_lt _) _ within).trans
      (tableAt_linkTable aligned notDirectory (pdirIndex_lt _) within)⟩

/-- If the second one is high, the machine stops without a message. -/
theorem mapNewFrame_high {table : ℕ} {rest : List ℕ} (order : k.pmm.freeList = frame :: table :: rest)
    (highTable : 1024 ≤ table) :
    mapNewFrame virtualAddr format arguments k = .error k.withFrame.withTableFrame := by
  obtain ⟨-, success, -⟩ := owned.pmmAllocFrame_of_cons ample order
  obtain ⟨ownedNext, -⟩ := owned.withFrame ample
  have ampleNext : Ample 1 k.withFrame.pmm := ample.alloc
  obtain ⟨tableAddress, tableSuccess, small⟩ :=
    ownedNext.pmmAllocFrame_of_cons ampleNext (freeList_withFrame order)
  have outside : ¬ (pmmAllocFrame k.withFrame.pmm).1 < identityLimit := by
    rw [tableAddress, frameAddr_lt_identityLimit_iff small]
    omega
  rw [mapNewFrame_success _ _ _ success]
  exact pagingMapPage_high (k := k.withFrame) _ _ absent tableSuccess outside

/-- If there is no second one, it stops for the table. -/
theorem mapNewFrame_single (order : k.pmm.freeList = [frame]) :
    StopsWith (mapNewFrame virtualAddr format arguments k)
      (some ("Out of memory: Unable to allocate frame for new page table", [])) := by
  obtain ⟨-, success, -⟩ := owned.pmmAllocFrame_of_cons ample order
  have failure := pmmAllocFrame_of_nil (freeList_withFrame order)
  have absentNext : tableAt k.withFrame.mem (pdirIndex virtualAddr) = none := absent
  have normal : k.withFrame.panikState.mode = .normal := owned.normal
  rw [mapNewFrame_success virtualAddr format arguments success, pagingMapPage_absent _ _ absentNext]
  simp only [newPageTable, panikIfNull, failure, if_true, panik, normal, bind, Except.bind]
  exact ⟨_, rfl, rfl⟩

end NewFrame

/-! ## One page of the stack -/

/-- From `k` to `last` pages of the stack were mapped to frames, one after the other. -/
structure MapsStack (offs : List Word) (frames : List ℕ) (k last : Kernel) : Prop where
  entries : ∀ off frame, (off, frame) ∈ offs.zip frames →
    walk last.mem (kernelStackBottomVirt + off) = some (frameEntry frame)
  others : ∀ addr, (∀ off ∈ offs, pageNumber addr ≠ pageNumber (kernelStackBottomVirt + off)) →
    walk last.mem addr = walk k.mem addr

/-- A page that is mapped is the first of the stack pages. -/
theorem mapsStack_singleton {k next : Kernel} {off : Word} {frame : ℕ}
    (maps : MapsPage (kernelStackBottomVirt + off) (frameEntry frame) k.mem next.mem) :
    MapsStack [off] [frame] k next where
  entries other page member := by
    obtain ⟨rfl, rfl⟩ : other = off ∧ page = frame := by simpa using member
    exact maps.walk_self (isPresent_pageEntry _ _) rfl
  others addr different := maps.walk addr (different off List.mem_cons_self)

/-- **One more page in front of the others.** -/
theorem MapsStack.cons {k next last : Kernel} {off : Word} {offs : List Word} {frame : ℕ} {frames : List ℕ}
    (first : MapsStack [off] [frame] k next) (rest : MapsStack offs frames next last)
    (different : ∀ other ∈ offs,
      pageNumber (kernelStackBottomVirt + off) ≠ pageNumber (kernelStackBottomVirt + other)) :
    MapsStack (off :: offs) (frame :: frames) k last where
  entries other page member := by
    rw [List.zip_cons_cons, List.mem_cons] at member
    rcases member with same | later
    · cases same
      rw [rest.others _ different]
      exact first.entries off frame (by simp)
    · exact rest.entries other page later
  others addr outside := by
    rw [rest.others addr fun other member => outside other (List.mem_cons_of_mem _ member)]
    refine first.others addr fun other member => ?_
    rw [List.mem_singleton.mp member]
    exact outside off List.mem_cons_self

section StackPage

variable {k : Kernel} (owned : Owned k) (ample : Ample 2 k.pmm) {off : Word}
  (high : identityLimit ≤ kernelStackBottomVirt + off)

include owned ample high in
/-- The loop of `kernel_main` reserves the frame of the page once more. -/
theorem mapStackPage_of_ok {next : Kernel}
    (ran : mapNewFrame (kernelStackBottomVirt + off) "Stack frame allocation failed" [] k = .ok next) :
    ∃ last, mapStackPage off k = .ok last ∧ last.mem = next.mem ∧
      last.pmm.freeList = next.pmm.freeList := by
  have marks := marks_pmmSetFrameBitmap (pmmAllocFrame k.pmm).1
    ((pmmAllocFrame k.pmm).1 + pageSize) next.pmm
  have ownedNext := owned.mapNewFrame ample high "Stack frame allocation failed" []
  obtain ⟨more, -, pmm⟩ : ∃ more ≤ 1, (mapNewFrame (kernelStackBottomVirt + off)
      "Stack frame allocation failed" [] k).state.pmm = allocRounds more (pmmAllocFrame k.pmm).2 :=
    pmm_mapNewFrame owned ample _ _
  rw [ran] at ownedNext pmm
  rw [mapStackPage_eq, ran]
  refine ⟨_, rfl, rfl, marks.freeList_eq fun frame member => ?_⟩
  obtain ⟨-, zero | ⟨spare, -⟩⟩ := owned.withFrame ample
  · rw [zero] at member
    rw [eq_of_mem_framesBetween (by decide) member]
    exact ownedNext.low _ (by decide)
  · rw [eq_of_mem_framesBetween spare.aligned member]
    change next.pmm = _ at pmm
    rw [pmm]
    exact isUsed_allocRounds_of_isUsed more spare.taken.2

theorem mapStackPage_stopsWith {k : Kernel} {off : Word} {message : Option (String × List Word)}
    (stops : StopsWith (mapNewFrame (kernelStackBottomVirt + off) "Stack frame allocation failed" [] k)
      message) : StopsWith (mapStackPage off k) message := by
  obtain ⟨stopped, ran, last⟩ := stops
  rw [mapStackPage_eq, ran]
  exact ⟨stopped, rfl, last⟩

include owned ample high

/-- A page that is mapped is mapped by the loop. -/
theorem mapStackPage_of_mapsPage {frame : ℕ} {free : List ℕ} {table : ℕ → Option Word}
    (mapped : ∃ next,
      mapNewFrame (kernelStackBottomVirt + off) "Stack frame allocation failed" [] k = .ok next ∧
        MapsPage (kernelStackBottomVirt + off) (frameEntry frame) k.mem next.mem ∧
        next.pmm.freeList = free ∧ ∀ index < pageEntries, tableAt next.mem index = table index) :
    ∃ last, mapStackPage off k = .ok last ∧ MapsStack [off] [frame] k last ∧
      last.pmm.freeList = free ∧ ∀ index < pageEntries, tableAt last.mem index = table index := by
  obtain ⟨next, ran, maps, left, tables⟩ := mapped
  obtain ⟨last, done, mem, same⟩ := mapStackPage_of_ok owned ample high ran
  rw [← mem] at maps tables
  exact ⟨last, done, mapsStack_singleton maps, same.trans left, tables⟩

end StackPage

/-! ## The loop over the stack -/

/-- The passes of the loop, one after the other. -/
def mapStackPages (offs : List Word) (k : Kernel) : Machine Kernel :=
  offs.foldl (fun machine off => machine.bind (mapStackPage off)) (.ok k)

theorem mapStackPages_cons_of_ok {off : Word} {offs : List Word} {k next : Kernel}
    (ran : mapStackPage off k = .ok next) : mapStackPages (off :: offs) k = mapStackPages offs next := by
  rw [mapStackPages, List.foldl_cons]
  change offs.foldl _ (mapStackPage off k) = _
  rw [ran]
  rfl

theorem mapStackPages_cons_of_stopsWith {off : Word} {offs : List Word} {k : Kernel}
    {message : Option (String × List Word)} (stops : StopsWith (mapStackPage off k) message) :
    StopsWith (mapStackPages (off :: offs) k) message := by
  obtain ⟨stopped, ran, last⟩ := stops
  refine ⟨stopped, ?_, last⟩
  rw [mapStackPages, List.foldl_cons]
  change offs.foldl _ (mapStackPage off k) = _
  rw [ran]
  exact foldl_mapStackPage_error offs stopped

/-- **Pages with a linked table take the free frames one by one**, and the machine stops when there
are not enough. -/
theorem mapStackPages_linked {offs : List Word} {k : Kernel} (owned : Owned k)
    (ample : Ample (2 * offs.length) k.pmm)
    (high : ∀ off ∈ offs, identityLimit ≤ kernelStackBottomVirt + off)
    (linked : ∀ off ∈ offs, tableAt k.mem (pdirIndex (kernelStackBottomVirt + off)) ≠ none)
    (different : (offs.map fun off => pageNumber (kernelStackBottomVirt + off)).Nodup) :
    if offs.length ≤ k.pmm.freeList.length then
      ∃ last, mapStackPages offs k = .ok last ∧ MapsStack offs k.pmm.freeList k last ∧
        last.pmm.freeList = k.pmm.freeList.drop offs.length ∧
        ∀ index < pageEntries, tableAt last.mem index = tableAt k.mem index
    else StopsWith (mapStackPages offs k) (some ("Stack frame allocation failed", [])) := by
  induction offs generalizing k with
  | nil => exact ⟨k, rfl, ⟨by simp, fun _ _ => rfl⟩, rfl, fun _ _ => rfl⟩
  | cons off offs ih =>
      rw [List.length_cons] at ample
      have more : Ample (2 * offs.length + 2) k.pmm := ample.mono (by omega)
      have two : Ample 2 k.pmm := more.mono (by omega)
      have highHere := high off List.mem_cons_self
      cases order : k.pmm.freeList with
      | nil =>
          rw [List.length_cons, List.length_nil, if_neg (by omega)]
          exact mapStackPages_cons_of_stopsWith
            (mapStackPage_stopsWith (mapNewFrame_nil owned.normal order))
      | cons frame rest =>
          obtain ⟨table, found⟩ := Option.ne_none_iff_exists'.mp (linked off List.mem_cons_self)
          obtain ⟨next, ran, maps, free, tables⟩ :=
            mapStackPage_of_mapsPage owned two highHere (mapNewFrame_linked owned two found order)
          have invariant := owned.mapStackPage more highHere
          rw [ran] at invariant
          obtain ⟨ownedNext, ampleNext⟩ : Owned next ∧ Ample (2 * offs.length) next.pmm := invariant
          obtain ⟨distinct, differentRest⟩ := List.nodup_cons.mp different
          have linkedNext : ∀ other ∈ offs,
              tableAt next.mem (pdirIndex (kernelStackBottomVirt + other)) ≠ none := by
            intro other member
            rw [tables _ (pdirIndex_lt _)]
            exact linked other (List.mem_cons_of_mem _ member)
          have behind := ih ownedNext ampleNext
            (fun other member => high other (List.mem_cons_of_mem _ member)) linkedNext differentRest
          rw [free] at behind
          rw [List.length_cons, List.length_cons, mapStackPages_cons_of_ok ran]
          by_cases enough : offs.length ≤ rest.length
          · rw [if_pos enough] at behind
            rw [if_pos (by omega)]
            obtain ⟨last, ranRest, mapsRest, freeRest, tablesRest⟩ := behind
            refine ⟨last, ranRest, maps.cons mapsRest fun other member same => distinct ?_, freeRest,
              fun index within => (tablesRest index within).trans (tables index within)⟩
            exact List.mem_map.mpr ⟨other, member, same.symm⟩
          · rw [if_neg enough] at behind
            rw [if_neg (by omega)]
            exact behind

/-! ## Boot -/

/-- How boot ends. -/
inductive BootEnd where
  /-- The first page of the stack, its table, and the frames from which the other pages are. -/
  | switchesStack (first table : ℕ) (rest : List ℕ)
  | noStackFrame
  | noTableFrame
  | tableOutOfReach

/-- How boot ends, by the frames that are free after the reservations. -/
def bootEnd : List ℕ → BootEnd
  | _ :: _ :: first :: table :: rest =>
      if 1024 ≤ table then .tableOutOfReach
      else if rest.length < 14 then .noStackFrame
      else .switchesStack first table rest
  | [_, _, _] => .noTableFrame
  | _ => .noStackFrame

/-- A stack that boot completes has a frame for each of its other fourteen pages. -/
theorem le_length_of_switchesStack {free rest : List ℕ} {first table : ℕ}
    (ends : bootEnd free = .switchesStack first table rest) : 14 ≤ rest.length := by
  rcases free with _ | ⟨kept, _ | ⟨keptToo, _ | ⟨first', _ | ⟨table', rest'⟩⟩⟩⟩
  case cons.cons.cons.cons =>
    rw [bootEnd] at ends
    split at ends
    · cases ends
    · split at ends
      · cases ends
      · rename_i enough
        cases ends
        exact Nat.le_of_not_lt enough
  all_goals cases ends

/-- What is left free before the stack is mapped. -/
theorem freeList_setupPaging (image : KernelImage) {pmm : Pmm} (k : Kernel)
    (small : pmm.maxFrameIdx.toNat < 2 ^ 20) :
    (setupPaging image pmm k).pmm.freeList = (bootReservations image pmm).freeList.drop 2 := by
  rw [pmm_setupPaging, ← allocRounds_two]
  have marks := marks_pmmReserveMemoryRegion image .pageTable (allocRounds 2 (bootReservations image pmm))
  rw [marks.freeList_eq fun frame member => ?_]
  · rw [allocRounds_two, freeList_pmmAllocFrame, freeList_pmmAllocFrame, ← List.drop_one, ← List.drop_one,
      List.drop_drop]
  · refine isUsed_allocRounds_of_isUsed 2 ?_
    rw [isUsed_bootReservations small, decide_eq_true (bounds_of_mem_reservedFrames member).2]
    rfl

theorem nodup_stackPages :
    (stackOffsets.map fun off => pageNumber (kernelStackBottomVirt + off)).Nodup := by
  rw [pageNumber_stackOffsets]
  exact List.nodup_range'

/-- The first page of the stack brings the table for the others. -/
theorem mapStackPages_stackOffsets {k : Kernel} (owned : Owned k) (ample : Ample 30 k.pmm)
    (absent : tableAt k.mem 779 = none) :
    match k.pmm.freeList with
    | [] => StopsWith (mapStackPages stackOffsets k) (some ("Stack frame allocation failed", []))
    | [_] => StopsWith (mapStackPages stackOffsets k)
        (some ("Out of memory: Unable to allocate frame for new page table", []))
    | first :: table :: rest =>
        if 1024 ≤ table then StopsWith (mapStackPages stackOffsets k) k.panikState.lastPanikMsg
        else if rest.length < 14 then
          StopsWith (mapStackPages stackOffsets k) (some ("Stack frame allocation failed", []))
        else ∃ last, mapStackPages stackOffsets k = .ok last ∧
          MapsStack stackOffsets (first :: rest) k last ∧ last.pmm.freeList = rest.drop 14 ∧
          ∀ index < pageEntries, tableAt last.mem index =
            if index = 779 then some (BitVec.ofNat 32 table * pageSize) else tableAt k.mem index := by
  have two : Ample 2 k.pmm := ample.mono (by decide)
  have more : Ample (28 + 2) k.pmm := ample
  have split : stackOffsets = pageSize :: visited pageSize 14 (pageSize + pageSize) := rfl
  have head : pageSize ∈ stackOffsets := List.mem_cons_self
  have behind {off : Word} (member : off ∈ visited pageSize 14 (pageSize + pageSize)) :
      off ∈ stackOffsets := List.mem_cons_of_mem _ member
  have high := le_stackAddr pageSize head
  have absentHere : tableAt k.mem (pdirIndex (kernelStackBottomVirt + pageSize)) = none := by
    rw [pdirIndex_stackAddr head]
    exact absent
  have different := nodup_stackPages
  rw [split] at different ⊢
  obtain ⟨distinct, differentRest⟩ := List.nodup_cons.mp different
  cases order : k.pmm.freeList with
  | nil =>
      exact mapStackPages_cons_of_stopsWith (mapStackPage_stopsWith (mapNewFrame_nil owned.normal order))
  | cons first others =>
      cases others with
      | nil =>
          exact mapStackPages_cons_of_stopsWith
            (mapStackPage_stopsWith (mapNewFrame_single owned two absentHere order))
      | cons table rest =>
          by_cases highTable : 1024 ≤ table
          · simp only [highTable, if_true]
            exact mapStackPages_cons_of_stopsWith
              (mapStackPage_stopsWith ⟨_, mapNewFrame_high owned two absentHere order highTable, rfl⟩)
          · obtain ⟨next, ran, maps, free, tables⟩ :=
              mapStackPage_of_mapsPage owned two high
                (mapNewFrame_absent owned two absentHere order (Nat.lt_of_not_le highTable))
            rw [pdirIndex_stackAddr head] at tables
            have invariant := owned.mapStackPage more high
            rw [ran] at invariant
            obtain ⟨ownedNext, ampleNext⟩ : Owned next ∧ Ample 28 next.pmm := invariant
            have linked : ∀ off ∈ visited pageSize 14 (pageSize + pageSize),
                tableAt next.mem (pdirIndex (kernelStackBottomVirt + off)) ≠ none := by
              intro off member
              rw [pdirIndex_stackAddr (behind member), tables 779 (by decide), if_pos rfl]
              exact Option.some_ne_none _
            have length : (visited pageSize 14 (pageSize + pageSize)).length = 14 := rfl
            have loop := mapStackPages_linked ownedNext (by rw [length]; exact ampleNext)
              (fun off member => le_stackAddr off (behind member)) linked differentRest
            rw [length, free] at loop
            simp only [highTable, if_false]
            rw [mapStackPages_cons_of_ok ran]
            by_cases enough : 14 ≤ rest.length
            · rw [if_pos enough] at loop
              rw [if_neg (Nat.not_lt.mpr enough)]
              obtain ⟨last, ranRest, mapsRest, freeRest, tablesRest⟩ := loop
              refine ⟨last, ranRest, maps.cons mapsRest fun off member same => distinct ?_, freeRest,
                fun index within => (tablesRest index within).trans (tables index within)⟩
              exact List.mem_map.mpr ⟨off, member, same.symm⟩
            · rw [if_neg enough] at loop
              rw [if_pos (Nat.lt_of_not_le enough)]
              exact loop

/-- The loop over the stack has ended for a kernel in this way. -/
def StackEnds (k : Kernel) : BootEnd → Prop
  | .switchesStack first table rest => ∃ last, mapStackPages stackOffsets k = .ok last ∧
      MapsStack stackOffsets (first :: rest) k last ∧ last.pmm.freeList = rest.drop 14 ∧
      ∀ index < pageEntries, tableAt last.mem index =
        if index = 779 then some (BitVec.ofNat 32 table * pageSize) else tableAt k.mem index
  | .noStackFrame => StopsWith (mapStackPages stackOffsets k) (some ("Stack frame allocation failed", []))
  | .noTableFrame => StopsWith (mapStackPages stackOffsets k)
      (some ("Out of memory: Unable to allocate frame for new page table", []))
  | .tableOutOfReach => StopsWith (mapStackPages stackOffsets k) k.panikState.lastPanikMsg

/-- It ends by the frames that were free before the kernel kept two. -/
theorem stackEnds {k : Kernel} (owned : Owned k) (ample : Ample 30 k.pmm)
    (absent : tableAt k.mem 779 = none) {free : List ℕ} (order : k.pmm.freeList = free.drop 2) :
    StackEnds k (bootEnd free) := by
  have loop := mapStackPages_stackOffsets owned ample absent
  rw [order] at loop
  rcases free with _ | ⟨kept, _ | ⟨keptToo, _ | ⟨first, _ | ⟨table, rest⟩⟩⟩⟩
  case nil => exact loop
  case cons.nil => exact loop
  case cons.cons.nil => exact loop
  case cons.cons.cons.nil => exact loop
  case cons.cons.cons.cons =>
    change if 1024 ≤ table then _ else _ at loop
    rw [bootEnd]
    by_cases highTable : 1024 ≤ table
    · rw [if_pos highTable] at loop ⊢
      exact loop
    · rw [if_neg highTable] at loop ⊢
      by_cases few : rest.length < 14
      · rw [if_pos few] at loop ⊢
        exact loop
      · rw [if_neg few] at loop ⊢
        exact loop

/-- For the kernel that boot sets up these are the frames that are free after the reservations. -/
theorem stackEnds_setupPaging {image : KernelImage} {fuel : ℕ} {map : List E820Entry}
    {frameBitmap : ℕ → BitVec 8} {t : Pmm} (init : initFromMap fuel map frameBitmap = some t)
    (mem : Word → Word) :
    StackEnds (setupPaging image t (.loaded frameBitmap mem))
      (bootEnd (bootReservations image t).freeList) := by
  have small := (initialized_of_pmmInit init).2.maxFrameIdx_lt
  have ample : Ample (30 + 2) (bootReservations image t) := (ample_of_initFromMap init).mono (by decide)
  exact stackEnds (owned_setupPaging small rfl) (ample_setupPaging small ample)
    (tableAt_setupPaging image t (.loaded frameBitmap mem) (by decide))
    (freeList_setupPaging image (.loaded frameBitmap mem) small)

/-- **How boot ends, on every memory map.** With the frames that are free after the reservations in
order, the loop over the stack stops for a frame, for a table, or without a message at a table out
of reach; or boot completes, and then the fifteen pages of the stack have the third frame and those
from the fifth on, the fourth is their table, and the free frames are the rest. -/
theorem kernelMain_ends {image : KernelImage} {fuel : ℕ} {map : List E820Entry}
    {frameBitmap : ℕ → BitVec 8} {t : Pmm} (init : initFromMap fuel map frameBitmap = some t)
    (mem : Word → Word) :
    ∃ machine, kernelMain image fuel map (.loaded frameBitmap mem) = some machine ∧
      match bootEnd (bootReservations image t).freeList with
      | .switchesStack first table rest => ∃ k, machine = .ok k ∧
          (∀ off frame, (off, frame) ∈ stackOffsets.zip (first :: rest) →
            walk k.mem (kernelStackBottomVirt + off) = some (frameEntry frame)) ∧
          (∀ index < pageEntries, tableAt k.mem index =
            if index = 779 then some (BitVec.ofNat 32 table * pageSize)
            else if index = 0 then some pageTableStartAddr else none) ∧
          k.pmm.freeList = rest.drop 14
      | .noStackFrame => StopsWith machine (some ("Stack frame allocation failed", []))
      | .noTableFrame =>
          StopsWith machine (some ("Out of memory: Unable to allocate frame for new page table", []))
      | .tableOutOfReach => StopsWith machine none := by
  have loop := @stackEnds_setupPaging image _ _ _ _ init mem
  refine ⟨mapStackPages stackOffsets (setupPaging image t (.loaded frameBitmap mem)),
    kernelMain_eq_some_iff.mpr ⟨t, init, rfl⟩, ?_⟩
  cases ends : bootEnd (bootReservations image t).freeList with
  | switchesStack first table rest =>
      rw [ends] at loop
      obtain ⟨last, ran, maps, free, linked⟩ := loop
      refine ⟨last, ran, maps.entries, fun index within => ?_, free⟩
      rw [linked index within, tableAt_setupPaging image t (.loaded frameBitmap mem) within]
  | noStackFrame =>
      rw [ends] at loop
      exact loop
  | noTableFrame =>
      rw [ends] at loop
      exact loop
  | tableOutOfReach =>
      rw [ends] at loop
      exact loop

/-- The free frames of a packed allocator are consecutive. -/
theorem Packed.freeList {next : ℕ} {s : Pmm} (packed : Packed next s)
    (counted : next ≤ s.totalFrames.toNat) :
    s.freeList = List.range' next (s.totalFrames.toNat - next) := by
  have positive := packed.positive
  have split : List.range' 1 (s.totalFrames.toNat - 1) =
      List.range' 1 (next - 1) ++ List.range' next (s.totalFrames.toNat - next) := by
    have joined := List.range'_append_1 (s := 1) (m := next - 1) (n := s.totalFrames.toNat - next)
    rw [show 1 + (next - 1) = next by omega,
      show next - 1 + (s.totalFrames.toNat - next) = s.totalFrames.toNat - 1 by omega] at joined
    exact joined.symm
  have before : (List.range' 1 (next - 1)).filter (fun frame => !s.isUsed frame) = [] := by
    rw [List.filter_eq_nil_iff]
    intro frame member
    rw [List.mem_range'_1] at member
    rw [packed.used frame member.1 (by omega)]
    decide
  have behind : (List.range' next (s.totalFrames.toNat - next)).filter (fun frame => !s.isUsed frame) =
      List.range' next (s.totalFrames.toNat - next) := by
    rw [List.filter_eq_self]
    intro frame member
    rw [List.mem_range'_1] at member
    rw [packed.free frame member.1 (by omega)]
    rfl
  rw [Pmm.freeList, unusedFrom, split, List.filter_append, before, behind, List.nil_append]

/-- Eight megabytes of memory from 4 MiB on. -/
def farMap : List E820Entry := [{ base := 0x400000, length := 0x800000, type := e820TypeAvailable }]

/-- On the far map boot stops without a message: there are a thousand free frames, but none for a
table. -/
theorem kernelMain_ends_farMap :
    ∃ machine, kernelMain sampleImage (2 ^ 20 + 1) farMap (.loaded (fun _ => 0) fun _ => 0) =
        some machine ∧ StopsWith machine none := by
  obtain ⟨t, init⟩ := exists_initFromMap farMap (by decide) (fun _ => 0)
  obtain ⟨total, -, packed⟩ := (initialized_of_pmmInit init).2.packed_of_region sampleImage
    (show (parseAndPrintE820Map farMap .empty).regions = [_] from rfl) (by decide : 256 ≤ 1024)
    (show _ = 1024 * 4096 from rfl) (show _ = (1024 + 2048) * 4096 from rfl)
  have counted : (bootReservations sampleImage t).totalFrames.toNat = 2048 := by
    rw [(marks_bootReservations sampleImage t).totalFrames, total]
  have free := packed.freeList (by omega)
  rw [counted] at free
  obtain ⟨machine, boot, ends⟩ := @kernelMain_ends sampleImage _ _ _ _ init fun _ => 0
  rw [free] at ends
  exact ⟨machine, boot, ends⟩

end KernelV.Memory
