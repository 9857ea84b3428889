import KernelV.Memory.Paging

/-!
# Demand paging

After boot memory is mapped by `pageFaultHandler`: a fault in the heap, or in the
stack just below the saved stack pointer, gets a new frame; every other fault stops
the machine (`pageFaultHandler_cases`). A fault in the guard page first stores to
address 0, which stops the machine only if the page of address 0 is not present.

A new frame is mapped by `mapNewFrame`: one frame for the data, and a second one
inside `pagingMapPage` when the directory has no table yet.

A run of faults (`FaultRun`) starts in some kernel and takes faults that a given
condition permits, up to and including the one that stops the machine.
-/

set_option autoImplicit false

namespace KernelV.Memory

open Library

def kernelHeapStart : Word := 0xC1000000
def kernelHeapEnd : Word := 0xC2000000
def kernelStackTopVirt : Word := 0xC3000000
def kernelStackBottomVirt : Word := kernelStackTopVirt - 0x10000

/-- `page_fault_stack_t`. -/
structure PageFaultStack where
  ds : Word
  edi : Word
  esi : Word
  ebp : Word
  esp : Word
  ebx : Word
  edx : Word
  ecx : Word
  eax : Word
  intNo : Word
  errorCode : Word
  eip : Word
  cs : Word
  eflags : Word
  useresp : Word
  ss : Word
  deriving DecidableEq, Repr

/-- A new frame for the page of an address, present and writable. -/
def mapNewFrame (virtualAddr : Word) (format : String) (arguments : List Word) (k : Kernel) :
    Machine Kernel := do
  let frame := (pmmAllocFrame k.pmm).1
  let k ← panikIfNull frame format arguments { k with pmm := (pmmAllocFrame k.pmm).2 }
  pagingMapPage virtualAddr frame (pagePresent ||| pageWrite) k

/-- A store to a virtual address. Without a present entry it faults inside the
handler, and the machine stops. -/
def storeVirtual (addr value : Word) (k : Kernel) : Machine Kernel :=
  match translate k.mem addr with
  | some physical => .ok { k with mem := Function.update k.mem physical value }
  | none => .error k

def stackGrowthGap : Word := 32

/-- `page_fault_handler`, with the address that `cr2` holds. -/
def pageFaultHandler (faultAddress : Word) (frame : PageFaultStack) (k : Kernel) :
    Machine Kernel := do
  let k ←
    if kernelStackBottomVirt ≤ faultAddress ∧ faultAddress < kernelStackBottomVirt + pageSize then
      storeVirtual 0x00000000 123 k
    else .ok k
  if kernelHeapStart ≤ faultAddress ∧ faultAddress < kernelHeapEnd then
    mapNewFrame faultAddress
      "Out of memory: Unable to allocate frame for page fault at address 0x%x" [faultAddress] k
  else if (kernelStackBottomVirt + pageSize ≤ faultAddress ∧ faultAddress < kernelStackTopVirt) ∧
      (frame.esp - stackGrowthGap ≤ faultAddress ∧ faultAddress < frame.esp) then
    mapNewFrame faultAddress "Out of memory in stack PF recovery" [] k
  else .error k

/-- The kernel after an allocation. -/
def Kernel.withFrame (k : Kernel) : Kernel := { k with pmm := (pmmAllocFrame k.pmm).2 }

section NewFrame

variable {k : Kernel} (virtualAddr : Word) (format : String) (arguments : List Word)

/-- When the handler goes on after its allocation, it maps what it was given, be it 0. -/
theorem mapNewFrame_goesOn (goesOn : (pmmAllocFrame k.pmm).1 = 0 → k.panikState.mode = .test) :
    ∃ panikState, panikState.mode = k.panikState.mode ∧
      ((pmmAllocFrame k.pmm).1 ≠ 0 → panikState = k.panikState) ∧
      mapNewFrame virtualAddr format arguments k =
        pagingMapPage virtualAddr (pmmAllocFrame k.pmm).1 (pagePresent ||| pageWrite)
          { k.withFrame with panikState } := by
  have test : (pmmAllocFrame k.pmm).1 = 0 → k.withFrame.panikState.mode = .test := goesOn
  obtain ⟨panikState, mode, same, passed⟩ := panikIfNull_goesOn test format arguments
  rw [Kernel.withFrame] at passed
  simp only [mapNewFrame, passed, bind, Except.bind, Kernel.withFrame]
  exact ⟨panikState, mode, same, rfl⟩

theorem mapNewFrame_success (success : (pmmAllocFrame k.pmm).1 ≠ 0) :
    mapNewFrame virtualAddr format arguments k =
      pagingMapPage virtualAddr (pmmAllocFrame k.pmm).1 (pagePresent ||| pageWrite) k.withFrame := by
  obtain ⟨panikState, -, same, mapped⟩ := mapNewFrame_goesOn virtualAddr format arguments
    fun failure => absurd failure success
  rw [mapped, same success]
  rfl

theorem mapNewFrame_exhausted (normal : k.panikState.mode = .normal)
    (failure : (pmmAllocFrame k.pmm).1 = 0) :
    ∃ panikState, panikState.mode = .normal ∧
      mapNewFrame virtualAddr format arguments k = .error { k.withFrame with panikState } := by
  simp only [mapNewFrame, panikIfNull, failure, if_true, panik, normal, bind, Except.bind,
    Kernel.withFrame]
  exact ⟨_, rfl, rfl⟩

end NewFrame

/-- An address of the kernel heap. -/
def InHeap (addr : Word) : Prop := kernelHeapStart ≤ addr ∧ addr < kernelHeapEnd

instance (addr : Word) : Decidable (InHeap addr) := inferInstanceAs (Decidable (_ ∧ _))

/-- A fault in the heap gets a new frame. -/
theorem pageFaultHandler_heap {faultAddress : Word} (heap : InHeap faultAddress)
    (frame : PageFaultStack) (k : Kernel) :
    pageFaultHandler faultAddress frame k =
      mapNewFrame faultAddress
        "Out of memory: Unable to allocate frame for page fault at address 0x%x" [faultAddress] k := by
  have heapEnd : kernelHeapEnd.toNat = 0xC2000000 := rfl
  have guardStart : kernelStackBottomVirt.toNat = 0xC2FF0000 := rfl
  have notGuard : ¬ kernelStackBottomVirt ≤ faultAddress := by
    rw [InHeap, BitVec.lt_def] at heap
    rw [BitVec.le_def]
    omega
  rw [InHeap] at heap
  simp only [pageFaultHandler, notGuard, false_and, if_false, heap, and_self, if_true]
  rfl

/-- The faults that get a new frame. -/
def Recovers (faultAddress : Word) (frame : PageFaultStack) : Prop :=
  InHeap faultAddress ∨
    (kernelStackBottomVirt + pageSize ≤ faultAddress ∧ faultAddress < kernelStackTopVirt) ∧
      (frame.esp - stackGrowthGap ≤ faultAddress ∧ faultAddress < frame.esp)

instance (addr : Word) (frame : PageFaultStack) : Decidable (Recovers addr frame) :=
  inferInstanceAs (Decidable (_ ∨ _))

section Regions

variable {addr : Word} {frame : PageFaultStack}

/-- The handler answers faults above the identity-mapped memory only. -/
theorem Recovers.identityLimit_le (recovers : Recovers addr frame) : identityLimit ≤ addr := by
  have heapStart : kernelHeapStart.toNat = 0xC1000000 := rfl
  have guardEnd : (kernelStackBottomVirt + pageSize).toNat = 0xC2FF1000 := rfl
  have limit : identityLimit.toNat = 0x400000 := rfl
  rw [BitVec.le_def]
  rcases recovers with ⟨above, -⟩ | ⟨⟨above, -⟩, -⟩
  · rw [BitVec.le_def] at above
    omega
  · rw [BitVec.le_def] at above
    omega

section Guard

variable (guard : kernelStackBottomVirt ≤ addr ∧ addr < kernelStackBottomVirt + pageSize)
include guard

/-- The guard page lies above the heap. -/
theorem not_inHeap_of_guard : ¬ InHeap addr := by
  have heapEnd : kernelHeapEnd.toNat = 0xC2000000 := rfl
  have guardStart : kernelStackBottomVirt.toNat = 0xC2FF0000 := rfl
  rw [InHeap, BitVec.le_def, BitVec.lt_def]
  rw [BitVec.le_def, BitVec.lt_def] at guard
  omega

/-- It lies below the pages of the stack. -/
theorem not_recovers_of_guard : ¬ Recovers addr frame := by
  rintro (heap | ⟨⟨above, -⟩, -⟩)
  · exact not_inHeap_of_guard guard heap
  · exact BitVec.not_le.mpr guard.2 above

/-- A fault in the guard page stops the machine, after the store to address 0 if that can be
made. -/
theorem pageFaultHandler_guard (k : Kernel) :
    pageFaultHandler addr frame k = .error k ∨
      ∃ physical, translate k.mem 0 = some physical ∧
        pageFaultHandler addr frame k =
          .error { k with mem := Function.update k.mem physical 123 } := by
  have notHeap : ¬ (kernelHeapStart ≤ addr ∧ addr < kernelHeapEnd) := not_inHeap_of_guard guard
  have notStack : ¬ kernelStackBottomVirt + pageSize ≤ addr := BitVec.not_le.mpr guard.2
  simp only [pageFaultHandler, guard, and_self, if_true, storeVirtual, notHeap, notStack, false_and,
    if_false]
  cases translate k.mem 0 with
  | none => exact .inl rfl
  | some physical => exact .inr ⟨physical, rfl, rfl⟩

end Guard

/-- **Everything `page_fault_handler` can do**: map a new frame for an address of the
heap or the stack, or stop the machine, after a store to address 0 if the guard page
was hit. -/
theorem pageFaultHandler_cases (addr : Word) (frame : PageFaultStack) (k : Kernel) :
    (Recovers addr frame ∧ identityLimit ≤ addr ∧
        ∃ format arguments, pageFaultHandler addr frame k = mapNewFrame addr format arguments k) ∨
      ¬ Recovers addr frame ∧ (pageFaultHandler addr frame k = .error k ∨
        ∃ physical, translate k.mem 0 = some physical ∧
          pageFaultHandler addr frame k =
            .error { k with mem := Function.update k.mem physical 123 }) := by
  by_cases guard : kernelStackBottomVirt ≤ addr ∧ addr < kernelStackBottomVirt + pageSize
  · exact .inr ⟨not_recovers_of_guard guard, pageFaultHandler_guard guard k⟩
  · by_cases heap : InHeap addr
    · have recovers : Recovers addr frame := .inl heap
      exact .inl ⟨recovers, recovers.identityLimit_le, _, _, pageFaultHandler_heap heap frame k⟩
    · by_cases growth : (kernelStackBottomVirt + pageSize ≤ addr ∧ addr < kernelStackTopVirt) ∧
          (frame.esp - stackGrowthGap ≤ addr ∧ addr < frame.esp)
      · have recovers : Recovers addr frame := .inr growth
        refine .inl ⟨recovers, recovers.identityLimit_le, ?_⟩
        rw [InHeap] at heap
        simp only [pageFaultHandler, guard, if_false, heap, growth, and_self, if_true]
        exact ⟨_, _, rfl⟩
      · refine .inr ⟨fun recovers => recovers.elim heap growth, .inl ?_⟩
        rw [InHeap] at heap
        simp only [pageFaultHandler, guard, if_false, heap, growth]
        rfl

end Regions

/-- A fault that is answered gets a new frame for its address, above the identity-mapped
memory. -/
theorem Recovers.handled {addr : Word} {frame : PageFaultStack} (recovers : Recovers addr frame)
    (k : Kernel) :
    identityLimit ≤ addr ∧
      ∃ format arguments, pageFaultHandler addr frame k = mapNewFrame addr format arguments k := by
  rcases pageFaultHandler_cases addr frame k with ⟨-, handled⟩ | ⟨rejected, -⟩
  · exact handled
  · exact absurd recovers rejected

/-! ## Runs of faults -/

/-- The machines reached from a kernel by faults that are permitted where they
occur. -/
inductive FaultRun (permitted : Kernel → Word → Prop) (start : Kernel) : Machine Kernel → Prop where
  | booted : FaultRun permitted start (.ok start)
  | fault {k : Kernel} (before : FaultRun permitted start (.ok k)) (addr : Word)
      (frame : PageFaultStack) (permits : permitted k addr) :
      FaultRun permitted start (pageFaultHandler addr frame k)

/-- The page of an address has no present entry. -/
def NotPresent (k : Kernel) (addr : Word) : Prop := walk k.mem addr = none

theorem not_notPresent_of_translate {k : Kernel} {addr physical : Word}
    (mapped : translate k.mem addr = some physical) : ¬ NotPresent k addr := by
  intro absent
  rw [translate, absent] at mapped
  cases mapped

/-- Without a page table no page is present. -/
theorem notPresent_of_absent {k : Kernel} {addr : Word} (absent : tableAt k.mem (pdirIndex addr) = none) :
    NotPresent k addr := by
  rw [NotPresent, walk, entryAt, absent]
  rfl

end KernelV.Memory
