import KernelV.Memory.DemandPaging

/-!
# A stack that overflows

The page below the kernel stack is not mapped, so a stack that overflows faults there. The
handler does not trust the stack any more: it stores to address 0, which should fault once more
and leave the rest to the handler of double faults. That needs a page 0 without a present entry.

`paging_init` maps page 0 to itself, with the rest of the first 4 MiB, and nothing that boot or a
fault does later takes the entry away. So in every state from `paging_init` on the store succeeds,
and the handler goes on with the code below it, on the stack that has overflowed
(`guardFault_not_escalated`). The word at address 0 is lost.
-/

set_option autoImplicit false

namespace KernelV.Memory

open Library

/-! ## The two parts of the handler -/

/-- `page_fault_handler` up to the end of the test for the guard page. -/
def checkGuardPage (faultAddress : Word) (k : Kernel) : Machine Kernel :=
  if kernelStackBottomVirt ≤ faultAddress ∧ faultAddress < kernelStackBottomVirt + pageSize then
    storeVirtual 0x00000000 123 k
  else .ok k

/-- `page_fault_handler` from there on. -/
def belowGuardCheck (faultAddress : Word) (frame : PageFaultStack) (k : Kernel) : Machine Kernel :=
  if kernelHeapStart ≤ faultAddress ∧ faultAddress < kernelHeapEnd then
    mapNewFrame faultAddress
      "Out of memory: Unable to allocate frame for page fault at address 0x%x" [faultAddress] k
  else if (kernelStackBottomVirt + pageSize ≤ faultAddress ∧ faultAddress < kernelStackTopVirt) ∧
      (frame.esp - stackGrowthGap ≤ faultAddress ∧ faultAddress < frame.esp) then
    mapNewFrame faultAddress "Out of memory in stack PF recovery" [] k
  else .error k

theorem pageFaultHandler_eq (faultAddress : Word) (frame : PageFaultStack) (k : Kernel) :
    pageFaultHandler faultAddress frame k =
      (checkGuardPage faultAddress k).bind (belowGuardCheck faultAddress frame) := by
  rw [pageFaultHandler, checkGuardPage]
  split <;> rfl

/-- The store to address 0 faults, and the handler does not get past it. -/
structure Escalates (k : Kernel) (faultAddress : Word) : Prop where
  notPresent : NotPresent k 0
  stops : checkGuardPage faultAddress k = .error k

/-- The kernel after the store to address 0. -/
def Kernel.withNullStored (k : Kernel) : Kernel := { k with mem := Function.update k.mem 0 123 }

/-! ## The faults that come after boot -/

/-- The processor raises page faults at pages without a present entry. As long as the allocator
counts no more frames than there are, faults at other addresses may come as well. -/
def MayFault (k : Kernel) (addr : Word) : Prop :=
  NotPresent k addr ∨ k.pmm.totalFrames.toNat ≤ 2 ^ 20

/-- **A fault that is answered keeps every frame owned once, with frames for the pages that are
left.** -/
theorem Provided.fault {k next : Kernel} (provided : Provided k) {addr : Word}
    (may : MayFault k addr) {frame : PageFaultStack} (ran : pageFaultHandler addr frame k = .ok next) : Provided next := by
  rcases may with absent | few
  · have harmless : Harmless k ⟨addr, frame⟩ := fun _ => .inl absent
    exact (provided.harmless harmless).2.2 next ran
  · have owned := provided.owned.pageFaultHandler provided.two addr frame
    have counted : Ample (2 * (unmappedPages next.mem).card + 2 + 2) k.pmm := .inl few
    have ample := counted.pageFaultHandler provided.owned addr frame
    rw [ran, Machine.state_ok] at owned ample
    exact ⟨owned, ample⟩

theorem FaultRun.provided {start last : Kernel} (run : FaultRun MayFault start (.ok last))
    (provided : Provided start) : Provided last := by
  generalize reached : (Except.ok last : Machine Kernel) = machine at run
  induction run generalizing last with
  | booted =>
      cases reached
      exact provided
  | fault before addr frame may ih => exact (ih rfl).fault may reached.symm

/-! ## From `paging_init` on -/

/-- A state of the kernel from `paging_init` on: boot has mapped some pages of the stack, and
faults have come after that. -/
inductive Running (image : KernelImage) (fuel : ℕ) (map : List E820Entry)
    (frameBitmap : ℕ → BitVec 8) (mem : Word → Word) (last : Kernel) : Prop where
  | intro {t : Pmm} {mapped : List Word} {k : Kernel}
      (init : initFromMap fuel map frameBitmap = some t) (boot : mapped <+: stackOffsets)
      (ran : mapped.foldl (fun (machine : Machine Kernel) off => machine.bind (mapStackPage off))
        (.ok (setupPaging image t (.loaded frameBitmap mem))) = .ok k)
      (run : FaultRun MayFault k (.ok last))

section Running

variable {image : KernelImage} {fuel : ℕ} {map : List E820Entry} {frameBitmap : ℕ → BitVec 8}
  {mem : Word → Word} {last : Kernel}

/-- A booted kernel is such a state. -/
theorem running_of_kernelMain
    (boot : kernelMain image fuel map (.loaded frameBitmap mem) = some (.ok last)) :
    Running image fuel map frameBitmap mem last := by
  obtain ⟨t, init, ended⟩ := kernelMain_eq_some_iff.mp boot
  exact .intro init (List.prefix_refl _) ended.symm .booted

theorem Running.provided (running : Running image fuel map frameBitmap mem last) :
    Provided last := by
  obtain ⟨init, visits, ran, run⟩ := running
  rename_i t mapped k
  have ample : Ample (16386 + 32) (bootReservations image t) :=
    (ample_of_initFromMap init).mono (by decide)
  obtain ⟨owned, enough⟩ := owned_foldl_setupPaging init ample visits ran.symm
  exact run.provided (owned.provided enough)

/-- Page 0 is mapped to itself. -/
theorem Running.translate_null (running : Running image fuel map frameBitmap mem last) :
    translate last.mem 0 = some 0 :=
  translate_of_identityEntry (running.provided.owned.identity 0 (by decide))

theorem checkGuardPage_of_translate {k : Kernel} (mapped : translate k.mem 0 = some 0)
    {faultAddress : Word} (guard : InGuardPage faultAddress) :
    checkGuardPage faultAddress k = .ok k.withNullStored := by
  have inside :
      kernelStackBottomVirt ≤ faultAddress ∧ faultAddress < kernelStackBottomVirt + pageSize :=
    guard
  rw [checkGuardPage, if_pos inside, storeVirtual, mapped]
  rfl

/-- **A stack overflow is never escalated.** In every state from `paging_init` on, and for every
address of the guard page, the store to address 0 goes through and the handler goes on below
it. -/
theorem guardFault_not_escalated (running : Running image fuel map frameBitmap mem last)
    {faultAddress : Word} (guard : InGuardPage faultAddress) :
    ¬ Escalates last faultAddress ∧ ¬ NotPresent last 0 ∧
      ∀ frame, pageFaultHandler faultAddress frame last =
        belowGuardCheck faultAddress frame last.withNullStored := by
  have stored := checkGuardPage_of_translate running.translate_null guard
  refine ⟨fun escalates => ?_, not_notPresent_of_translate running.translate_null, fun frame => ?_⟩
  · have stops := escalates.stops
    rw [stored] at stops
    cases stops
  · rw [pageFaultHandler_eq, stored]
    rfl

end Running

/-- On the roomy map an overflow right after boot gets past the store. -/
theorem guardFault_not_escalated_roomyMap :
    ∃ k, Running sampleImage (2 ^ 20 + 1) roomyMap (fun _ => 0) (fun _ => 0) k ∧
      ¬ Escalates k 0xC2FF0FFC := by
  obtain ⟨t, k, -, -, boot, -⟩ := kernelMain_roomyMap
  have running := running_of_kernelMain boot
  have guard : InGuardPage 0xC2FF0FFC := by
    rw [inGuardPage_iff]
    decide
  exact ⟨k, running, (guardFault_not_escalated running guard).1⟩

/-- There page 0 has a present entry, and the handler loses the word at address 0 and ends below
the store. -/
theorem guardFault_roomyMap :
    ∃ k, kernelMain sampleImage (2 ^ 20 + 1) roomyMap (.loaded (fun _ => 0) fun _ => 0) = some (.ok k) ∧
      InGuardPage 0xC2FF0FFC ∧ ¬ NotPresent k 0 ∧
      checkGuardPage 0xC2FF0FFC k = .ok k.withNullStored ∧
      pageFaultHandler 0xC2FF0FFC zeroStack k = .error k.withNullStored := by
  obtain ⟨t, k, -, -, boot, -⟩ := kernelMain_roomyMap
  have mapped := (running_of_kernelMain boot).translate_null
  have guard : InGuardPage 0xC2FF0FFC := by
    rw [inGuardPage_iff]
    decide
  have stored := checkGuardPage_of_translate mapped guard
  refine ⟨k, boot, guard, not_notPresent_of_translate mapped, stored, ?_⟩
  have neither :
      belowGuardCheck 0xC2FF0FFC zeroStack k.withNullStored = .error k.withNullStored := by
    rw [belowGuardCheck, if_neg (by decide), if_neg (by decide)]
  rw [pageFaultHandler_eq, stored]
  exact neither

end KernelV.Memory
