import KernelV.Memory.StackOverflow

/-!
# The pages of the stack

Boot maps every page of the stack above its guard page (`present_of_kernelMain`), one after the
other. Faults keep present pages present and leave the guard page alone. So between the end of the
heap and the top of the stack the pages that are present are those above the guard page, from boot
on (`walk_stack_iff`).
-/

set_option autoImplicit false

namespace KernelV.Memory

open Library

/-! ## Words that are pushed -/

theorem toNat_push {esp : Word} {index : ℕ} (room : 4 * (index + 1) ≤ esp.toNat) :
    (esp - BitVec.ofNat 32 (4 * (index + 1))).toNat = esp.toNat - 4 * (index + 1) := by
  have bound := esp.isLt
  have value : (BitVec.ofNat 32 (4 * (index + 1))).toNat = 4 * (index + 1) := by
    rw [BitVec.toNat_ofNat]
    exact Nat.mod_eq_of_lt (by omega)
  rw [BitVec.toNat_sub_of_le, value]
  rw [BitVec.le_def, value]
  exact room

/-! ## A page mapped -/

/-- A step that maps a page leaves it present, and the other pages as they were. -/
theorem walk_ne_none_of_mapsPage {virtualAddr entry : Word} {mem mem' : Word → Word}
    (maps : MapsPage virtualAddr entry mem mem') (present : isPresent entry = true) {addr : Word}
    (before : walk mem addr ≠ none ∨ pageNumber addr = pageNumber virtualAddr) :
    walk mem' addr ≠ none := by
  by_cases same : pageNumber addr = pageNumber virtualAddr
  · rw [maps.walk_self present same]
    exact Option.some_ne_none entry
  · rw [maps.walk addr same]
    exact before.resolve_right same

theorem InStack.identityLimit_le {addr : Word} (inside : InStack addr) : identityLimit ≤ addr := by
  have limit : identityLimit.toNat = 0x400000 := rfl
  have guardEnd : (kernelStackBottomVirt + pageSize).toNat = 0xC2FF1000 := rfl
  have above := inside.1
  rw [BitVec.le_def] at above ⊢
  omega

/-- Every page above the guard page is one that boot maps. -/
theorem exists_stackOffset {addr : Word} (inside : InStack addr) :
    ∃ off ∈ stackOffsets, pageNumber (kernelStackBottomVirt + off) = pageNumber addr := by
  have guardEnd : (kernelStackBottomVirt + pageSize).toNat = 0xC2FF1000 := rfl
  have stackTop : kernelStackTopVirt.toNat = 0xC3000000 := rfl
  have member : pageNumber addr ∈ List.range' 0xC2FF1 15 := by
    rw [InStack, BitVec.le_def, BitVec.lt_def] at inside
    rw [List.mem_range'_1, toNat_pageNumber]
    omega
  rw [← pageNumber_stackOffsets] at member
  exact List.mem_map.mp member

theorem present_of_mapStackPage {k next : Kernel} {off addr : Word} (owned : Owned k)
    (ample : Ample 2 k.pmm) (ran : mapStackPage off k = .ok next)
    (before : walk k.mem addr ≠ none ∨ pageNumber addr = pageNumber (kernelStackBottomVirt + off)) :
    walk next.mem addr ≠ none := by
  rw [mapStackPage_eq] at ran
  cases mapped : mapNewFrame (kernelStackBottomVirt + off) "Stack frame allocation failed" [] k with
  | error stopped =>
      rw [mapped] at ran
      cases ran
  | ok middle =>
      rw [mapped] at ran
      cases ran
      exact walk_ne_none_of_mapsPage (owned.mapsPage_of_ok ample mapped).1 (isPresent_pageEntry _ _) before

/-- The pages of a loop over the stack that has come to its end. -/
theorem present_of_foldl (offs : List Word) {k last : Kernel} (owned : Owned k)
    (ample : Ample (2 * offs.length) k.pmm)
    (high : ∀ off ∈ offs, identityLimit ≤ kernelStackBottomVirt + off)
    (ended : offs.foldl (fun (machine : Machine Kernel) off => machine.bind (mapStackPage off)) (.ok k) =
      .ok last) {off addr : Word} (member : off ∈ offs)
    (page : pageNumber addr = pageNumber (kernelStackBottomVirt + off)) : walk last.mem addr ≠ none := by
  induction offs generalizing k with
  | nil => cases member
  | cons first offs ih =>
      rw [List.length_cons] at ample
      have more : Ample (2 * offs.length + 2) k.pmm := ample.mono (by omega)
      have two : Ample 2 k.pmm := more.mono (by omega)
      obtain ⟨ownedNext, ampleNext⟩ := owned.mapStackPage more (high first List.mem_cons_self)
      have highRest : ∀ off ∈ offs, identityLimit ≤ kernelStackBottomVirt + off := fun off inside =>
        high off (List.mem_cons_of_mem _ inside)
      rw [List.foldl_cons] at ended
      change offs.foldl _ (mapStackPage first k) = _ at ended
      cases ran : mapStackPage first k with
      | error stopped =>
          rw [ran, foldl_mapStackPage_error] at ended
          cases ended
      | ok next =>
          rw [ran] at ended ownedNext ampleNext
          rcases List.mem_cons.mp member with rfl | later
          · exact foldl_mapStackPage_induction (fun k => walk k.mem addr ≠ none) offs
              (fun _ _ k next owned ample present ran =>
                present_of_mapStackPage owned ample ran (.inl present))
              ownedNext ampleNext highRest (present_of_mapStackPage owned two ran (.inr page)) ended
          · exact ih ownedNext ampleNext highRest ended later

section Faults

variable {image : KernelImage} {fuel : ℕ} {map : List E820Entry} {frameBitmap : ℕ → BitVec 8}
  {mem : Word → Word} {k last : Kernel}

/-- **Boot maps every page of the stack above its guard page.** -/
theorem present_of_kernelMain
    (boot : kernelMain image fuel map (.loaded frameBitmap mem) = some (.ok k)) {addr : Word}
    (inside : InStack addr) : walk k.mem addr ≠ none := by
  obtain ⟨t, init, ended⟩ := kernelMain_eq_some_iff.mp boot
  have small := (initialized_of_pmmInit init).2.maxFrameIdx_lt
  have ample : Ample (2 * stackOffsets.length + 2) (bootReservations image t) :=
    (ample_of_initFromMap init).mono (by decide)
  obtain ⟨off, member, page⟩ := exists_stackOffset inside
  exact present_of_foldl stackOffsets (owned_setupPaging small rfl) (ample_setupPaging small ample)
    le_stackAddr ended.symm member page.symm

/-- Faults leave present pages present, and give no page outside of the heap and the stack. -/
theorem FaultRun.walk_mayFault {start : Kernel} (run : FaultRun MayFault start (.ok last))
    (provided : Provided start) (addr : Word) :
    (walk start.mem addr ≠ none → walk last.mem addr ≠ none) ∧
      (¬ DemandPaged addr → walk last.mem addr = walk start.mem addr) := by
  generalize reached : (Except.ok last : Machine Kernel) = machine at run
  induction run generalizing last with
  | booted =>
      cases reached
      exact ⟨fun present => present, fun _ => rfl⟩
  | @fault middle before faultAddress frame may ih =>
      have providedMiddle := before.provided provided
      obtain ⟨kept, outside⟩ := ih rfl
      refine ⟨fun present => ?_, fun notPaged => ?_⟩
      · rcases fault_cases providedMiddle.owned providedMiddle.two faultAddress frame with
          ⟨-, -, next, ran, maps⟩ | ⟨stopped, error, -⟩
        · cases reached.trans ran
          exact walk_ne_none_of_mapsPage maps (isPresent_pageEntry _ _) (.inl (kept present))
        · cases reached.trans error
      · have unmoved := walk_pageFaultHandler providedMiddle.owned providedMiddle.two faultAddress frame
          notPaged
        rw [← reached, Machine.state_ok] at unmoved
        exact unmoved.trans (outside notPaged)

/-- Between the end of the heap and the top of the stack, the pages that are present are those
above the guard page. -/
theorem walk_stack_iff
    (boot : kernelMain image fuel map (.loaded frameBitmap mem) = some (.ok k))
    (run : FaultRun MayFault k (.ok last)) {addr : Word} (above : kernelHeapEnd ≤ addr)
    (below : addr < kernelStackTopVirt) :
    walk last.mem addr ≠ none ↔ kernelStackBottomVirt + pageSize ≤ addr := by
  obtain ⟨kept, outside⟩ := run.walk_mayFault (provided_of_kernelMain boot) addr
  constructor
  · intro present
    by_contra guard
    have heapEnd : kernelHeapEnd.toNat = 0xC2000000 := rfl
    have limit : identityLimit.toNat = 0x400000 := rfl
    have high : identityLimit ≤ addr := by
      rw [BitVec.le_def] at above ⊢
      omega
    have notPaged : ¬ DemandPaged addr := by
      rintro (heap | stack)
      · exact BitVec.not_lt.mpr above heap.2
      · exact guard stack.1
    rw [outside notPaged] at present
    exact present (walk_of_kernelMain boot high notPaged)
  · intro stack
    exact kept (present_of_kernelMain boot ⟨stack, below⟩)

end Faults

end KernelV.Memory
