import KernelV.Arch.IsrPageFault

/-!
# The way back from a page fault

After `page_fault_handler` returns, the stub drops the argument, pops the four segment registers
and the general registers in the order opposite to the one of the entry, drops the error code and
leaves with `iret`. The slot of `esp` is skipped by `popa`, so the stack pointer of the
interrupted code comes back by counting: the stub has popped as many words as were pushed.

The handler can leave any value in any register. If it returns with the stack pointer at its
argument and has not changed the words above, then the interrupted code goes on with the
registers it had (`isrPageFault_transparent`). The stub sets the interrupt flag before `iret`,
and `iret` overwrites it with the saved one.
-/

set_option autoImplicit false

namespace KernelV.Arch

open Library Memory

/-- Both processors show a program the same registers. -/
structure Resumes (c r : Cpu) : Prop where
  eax : r.eax = c.eax
  ecx : r.ecx = c.ecx
  edx : r.edx = c.edx
  ebx : r.ebx = c.ebx
  esp : r.esp = c.esp
  ebp : r.ebp = c.ebp
  esi : r.esi = c.esi
  edi : r.edi = c.edi
  segment : ∀ register, r.segment register = c.segment register
  eip : r.eip = c.eip
  cs : r.cs = c.cs
  eflags : r.eflags = c.eflags

/-- The handler, from its first instruction on `c`, returns to its argument slot, and the sixteen
words above that slot are what they were. -/
structure Returns (handler : Cpu → Cpu) (c : Cpu) : Prop where
  esp : (handler c).esp = cellAddr 4 c.esp 1
  kept : ∀ index < 16, (handler c).stack.mem (cellAddr 4 c.esp (index + 2)) =
    c.stack.mem (cellAddr 4 c.esp (index + 2))

/-! ## The epilogue -/

/-- **The slots that the epilogue takes.** The first one is the argument and the fifth is the
saved stack pointer. -/
theorem run_isrPageFaultExit (c : Cpu) :
    c.run isrPageFaultExit =
      { eax := c.stack.slot 4 12
        ecx := c.stack.slot 4 11
        edx := c.stack.slot 4 10
        ebx := c.stack.slot 4 9
        ebp := c.stack.slot 4 7
        esi := c.stack.slot 4 6
        edi := c.stack.slot 4 5
        segment := fun
          | .ds => (c.stack.slot 4 4).setWidth 16
          | .es => (c.stack.slot 4 3).setWidth 16
          | .fs => (c.stack.slot 4 2).setWidth 16
          | .gs => (c.stack.slot 4 1).setWidth 16
        eip := c.stack.slot 4 14
        cs := (c.stack.slot 4 15).setWidth 16
        eflags := c.stack.slot 4 16
        stack := c.stack.drop 4 17 } := by
  obtain ⟨eax, ecx, edx, ebx, ebp, esi, edi, segment, eip, cs, eflags, stack⟩ := c
  have start : stack.drop 4 0 = stack := Stack.drop_zero 4 stack
  have skip (count : ℕ) :
      (⟨(stack.drop 4 count).pointer + 4, (stack.drop 4 count).mem⟩ : Stack 32 Word) =
      stack.drop 4 (count + 1) := (Stack.drop_succ 4 stack count).symm
  -- The epilogue starts with no slot taken.
  conv_lhs => rw [← start]
  simp only [Cpu.run, isrPageFaultExit, List.foldl_cons, List.foldl_nil, Cpu.exec, skip, Stack.pop_drop,
    Cpu.mk.injEq, true_and, and_true]
  funext register
  cases register <;> rfl

section Transparent

variable {gate : Gate} {errorCode returnAddress : Word} {c : Cpu} {handler : Cpu → Cpu}

/-- Above the argument the words are counted from the frame. -/
theorem cellAddr_esp_atHandler (index : ℕ) :
    cellAddr 4 (atHandler gate errorCode returnAddress c).esp (index + 2) =
      cellAddr 4 (frameAddr errorCode c) index := by
  rw [Cpu.esp, stack_atHandler, Stack.cellAddr_pointer_push, Stack.cellAddr_pointer_push, frameAddr]

variable (returns : Returns handler (atHandler gate errorCode returnAddress c))
include returns

/-- After the handler the saved words are still found above its argument. -/
theorem Returns.slot_eq {index : ℕ} {value : Word}
    (saved : (savedWords errorCode c).reverse[index]? = some value) :
    (handler (atHandler gate errorCode returnAddress c)).stack.slot 4 (index + 1) = value := by
  have within : index < 16 := (List.getElem?_eq_some_iff.mp saved).1
  have pointer :
      cellAddr 4 (handler (atHandler gate errorCode returnAddress c)).stack.pointer (index + 1) =
      cellAddr 4 (atHandler gate errorCode returnAddress c).esp (index + 2) := by
    have argument := congrArg (fun esp => cellAddr 4 esp (index + 1)) returns.esp
    rwa [cellAddr_cellAddr, Nat.add_comm 1 (index + 1)] at argument
  rw [Stack.slot, pointer, returns.kept index within, cellAddr_esp_atHandler]
  exact mem_atHandler gate errorCode returnAddress c saved

/-- Once the argument and the saved words are gone, the stack pointer is back. -/
theorem Returns.pointer_drop :
    ((handler (atHandler gate errorCode returnAddress c)).stack.drop 4 17).pointer = c.esp := by
  calc ((handler (atHandler gate errorCode returnAddress c)).stack.drop 4 17).pointer
      = cellAddr 4 (cellAddr 4 (atHandler gate errorCode returnAddress c).esp 1) 17 :=
        congrArg (fun esp => cellAddr 4 esp 17) returns.esp
    _ = cellAddr 4 (frameAddr errorCode c) 16 := by
        rw [cellAddr_cellAddr]
        exact cellAddr_esp_atHandler 16
    _ = c.esp := Stack.pointer_drop_pushAll 4 (savedWords errorCode c) c.stack

/-- **The stub is transparent.** Whatever the handler leaves in the registers, if it returns to its
argument slot and has not changed the saved words, the interrupted code goes on with the
registers it had at the fault. -/
theorem isrPageFault_transparent :
    Resumes c (isrPageFault returnAddress handler (c.takePageFault gate errorCode)) := by
  have word : ∀ index value, (savedWords errorCode c).reverse[index]? = some value →
      (handler (atHandler gate errorCode returnAddress c)).stack.slot 4 (index + 1) = value :=
    fun _ _ saved => returns.slot_eq saved
  have pointer := returns.pointer_drop
  have whole : isrPageFault returnAddress handler (c.takePageFault gate errorCode) =
      (handler (atHandler gate errorCode returnAddress c)).run isrPageFaultExit := rfl
  rw [whole, run_isrPageFaultExit]
  refine ⟨word 11 _ rfl, word 10 _ rfl, word 9 _ rfl, word 8 _ rfl, pointer, word 6 _ rfl, word 5 _ rfl,
    word 4 _ rfl, fun register => ?_, word 13 _ rfl, ?_, word 15 _ rfl⟩
  · have low (value : BitVec 16) : (value.setWidth 32).setWidth 16 = value :=
      BitVec.setWidth_setWidth_of_le value (by decide)
    cases register with
    | ds => exact (congrArg _ (word 3 _ rfl)).trans (low _)
    | es => exact (congrArg _ (word 2 _ rfl)).trans (low _)
    | fs => exact (congrArg _ (word 1 _ rfl)).trans (low _)
    | gs => exact (congrArg _ (word 0 _ rfl)).trans (low _)
  · exact (congrArg _ (word 14 _ rfl)).trans (BitVec.setWidth_setWidth_of_le c.cs (by decide))

end Transparent

/-- A handler that overwrites the registers, leaves a word below its frame, and returns. -/
def clobber (c : Cpu) : Cpu :=
  { c with
    eax := 0xDEAD, ecx := 1, edx := 2, ebx := 3, ebp := 4, esi := 5, edi := 6
    eip := 0x10220, eflags := 0x246
    stack := ⟨cellAddr 4 c.esp 1, (c.stack.push 4 0xBEEF).mem⟩ }

/-- The interrupted sample code goes on as if nothing had been overwritten. -/
theorem isrPageFault_transparent_sampleCpu :
    Resumes sampleCpu (isrPageFault 0x10220 clobber (sampleCpu.takePageFault ⟨0x08, 0x10200⟩ 2)) := by
  refine isrPageFault_transparent ⟨rfl, fun index within => ?_⟩
  exact Stack.mem_push (by decide) 0xBEEF (by omega)

end KernelV.Arch
