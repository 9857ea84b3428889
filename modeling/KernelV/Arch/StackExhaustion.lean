import KernelV.Arch.Exceptions
import KernelV.Memory.StackPages
import Mathlib.Data.List.TakeWhile

/-!
# Page faults without a stack

The processor pushes the frame of a page fault on the stack of the code that faults. If that stack
has run into its guard page, the push faults as well. This is a double fault, and as no double
fault is ever delivered, the machine resets.

So the branch of `page_fault_handler` for the guard page is not entered by a stack that overflows.
Boot maps all pages of the stack above the guard page, faults leave the guard page alone, and a
page fault reaches its handler exactly when four words above the guard page are left
(`pageFault_enters_iff`).
-/

set_option autoImplicit false

namespace KernelV.Arch

open Library Memory

/-! ## Room for a frame -/

/-- The number of words, up to four, that can be pushed from an aligned stack pointer on. -/
def stackRoom (mem : Word → Word) (esp : Word) : ℕ :=
  ((List.range 4).takeWhile fun slot =>
    (Memory.translate mem (esp - BitVec.ofNat 32 (4 * (slot + 1)))).isSome).length

theorem four_le_stackRoom_iff {mem : Word → Word} {esp : Word} :
    4 ≤ stackRoom mem esp ↔
      ∀ slot < 4, walk mem (esp - BitVec.ofNat 32 (4 * (slot + 1))) ≠ none := by
  have mapped (slot : ℕ) : (Memory.translate mem (esp - BitVec.ofNat 32 (4 * (slot + 1)))).isSome = true ↔
      walk mem (esp - BitVec.ofNat 32 (4 * (slot + 1))) ≠ none := by
    rw [Memory.translate, Option.isSome_map, Option.isSome_iff_ne_none]
  constructor
  · intro room slot few
    have all := (List.takeWhile_prefix _).eq_of_length_le (le_of_eq_of_le List.length_range room)
    exact (mapped slot).mp (List.takeWhile_eq_self_iff.mp all slot (List.mem_range.mpr few))
  · intro present
    have all : (List.range 4).takeWhile (fun slot =>
        (Memory.translate mem (esp - BitVec.ofNat 32 (4 * (slot + 1)))).isSome) = List.range 4 :=
      List.takeWhile_eq_self_iff.mpr fun slot few =>
        (mapped slot).mpr (present slot (List.mem_range.mp few))
    rw [stackRoom, all, List.length_range]

/-- **A page fault needs four words above the guard page.** In every state that faults lead to
after boot, and for every stack pointer between the heap and the top of the stack, a page fault
enters `isr_page_fault` exactly if the four words below the pointer lie above the guard page.
Otherwise the processor shuts down, and no handler runs. -/
theorem pageFault_enters_iff {image : KernelImage} {fuel : ℕ} {map : List E820Entry}
    {frameBitmap : ℕ → BitVec 8} {mem : Word → Word} {k last : Kernel}
    (boot : kernelMain image fuel map (.loaded frameBitmap mem) = some (.ok k))
    (run : FaultRun MayFault k (.ok last)) {link : LinkMap} {start ready s : Platform}
    (tables : bootTables link start = some ready) (steps : Platform.Run ready s) {esp : Word}
    (above : kernelHeapEnd + 16 ≤ esp) (below : esp ≤ kernelStackTopVirt) :
    s.raise link (stackRoom last.mem esp) 4 ⟨14, true⟩ =
      some (if kernelStackBottomVirt + pageSize + 16 ≤ esp then .enters 0x08 link.isrPageFault
        else .shutdown) := by
  have heapEnd : kernelHeapEnd.toNat = 0xC2000000 := rfl
  have lowest : (kernelHeapEnd + 16).toNat = 0xC2000010 := rfl
  have guardEnd : (kernelStackBottomVirt + pageSize).toNat = 0xC2FF1000 := rfl
  have needed : (kernelStackBottomVirt + pageSize + 16).toNat = 0xC2FF1010 := rfl
  have stackTop : kernelStackTopVirt.toNat = 0xC3000000 := rfl
  rw [BitVec.le_def] at above below
  -- The slots below the pointer, one after the other.
  have slotAddr (slot : ℕ) (few : slot < 4) :
      (esp - BitVec.ofNat 32 (4 * (slot + 1))).toNat = esp.toNat - 4 * (slot + 1) :=
    toNat_push (by omega)
  have slotPresent (slot : ℕ) (few : slot < 4) :
      walk last.mem (esp - BitVec.ofNat 32 (4 * (slot + 1))) ≠ none ↔
        kernelStackBottomVirt + pageSize ≤ esp - BitVec.ofNat 32 (4 * (slot + 1)) := by
    have address := slotAddr slot few
    refine walk_stack_iff boot run ?_ ?_
    · rw [BitVec.le_def]
      omega
    · rw [BitVec.lt_def]
      omega
  obtain ⟨reached, booted, gates⟩ := bootTables_gates link start
  obtain rfl : reached = ready := Option.some.inj (booted.symm.trans tables)
  have room : 4 ≤ stackRoom last.mem esp ↔ kernelStackBottomVirt + pageSize + 16 ≤ esp := by
    rw [four_le_stackRoom_iff, BitVec.le_def]
    constructor
    · intro present
      have lowestSlot := (slotPresent 3 (by omega)).mp (present 3 (by omega))
      rw [BitVec.le_def, slotAddr 3 (by omega)] at lowestSlot
      omega
    · intro enough slot few
      rw [slotPresent slot few, BitVec.le_def, slotAddr slot few]
      omega
  have words : Event.frameWords ⟨14, true⟩ = 4 := by decide
  rw [(gates.run steps).raise_eq, words]
  by_cases enough : kernelStackBottomVirt + pageSize + 16 ≤ esp
  · rw [if_pos ⟨rfl, room.mpr enough⟩, if_pos enough]
  · rw [if_neg fun both => enough (room.mp both.2), if_neg enough]

/-- On the roomy map, with the sample addresses: the first word of the guard page is left when the
stack pointer is at the end of the page, and the machine resets. -/
theorem pageFault_enters_roomyMap :
    ∃ k ready, kernelMain sampleImage (2 ^ 20 + 1) roomyMap (.loaded (fun _ => 0) fun _ => 0) =
        some (.ok k) ∧ bootTables sampleLink coldPlatform = some ready ∧
      ready.raise sampleLink (stackRoom k.mem 0xC2FF1000) 4 ⟨14, true⟩ = some .shutdown ∧
      ready.raise sampleLink (stackRoom k.mem 0xC2FFFFF0) 4 ⟨14, true⟩ = some (.enters 0x08 0x10060) := by
  obtain ⟨t, k, -, -, boot, -⟩ := kernelMain_roomyMap
  obtain ⟨ready, tables, -⟩ := bootTables_gates sampleLink coldPlatform
  refine ⟨k, ready, boot, tables, ?_, ?_⟩
  · exact pageFault_enters_iff boot .booted tables .refl (by decide) (by decide)
  · exact pageFault_enters_iff boot .booted tables .refl (by decide) (by decide)

end KernelV.Arch
