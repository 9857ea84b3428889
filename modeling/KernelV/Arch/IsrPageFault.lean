import KernelV.Library.Stack
import KernelV.Memory.SideStores

/-!
# The entry stub for page faults

On a page fault the processor pushes `EFLAGS`, `CS`, `EIP` and an error code, and
continues at `isr_page_fault`. The stub saves the general registers with `pusha` and
the four data segment registers, and calls `page_fault_handler` with the stack pointer
as its argument. The handler reads a `page_fault_stack_t` there.

The layout of that structure is written down twice, by the order of the pushes and by
the order of the fields. The two differ: the structure has one slot for a segment
register where the stub pushes four, and a slot for an interrupt number that nothing
pushes, so the fields are three slots off below that slot and two above it. Every field
the handler reads is therefore some other register (`handlerFrame_eq`), and the four
that it uses are right only if the registers happen to agree
(`handlerFrame_agrees_iff`). What the pushes change are the eighteen words below the
interrupted stack pointer (`mem_atHandler_of_not_below`).

Segment registers are pushed as zero-extended words. The flags that `add` sets are left
out, since `iret` restores all of them.
-/

set_option autoImplicit false

namespace KernelV.Arch

open Library Memory

/-! ## The processor -/

inductive SegReg where
  | ds
  | es
  | fs
  | gs
  deriving DecidableEq, Repr

/-- The registers the stub works on, and the memory of the stack. -/
structure Cpu where
  eax : Word
  ecx : Word
  edx : Word
  ebx : Word
  ebp : Word
  esi : Word
  edi : Word
  segment : SegReg → BitVec 16
  eip : Word
  cs : BitVec 16
  eflags : Word
  /-- `esp` and the words it points into. -/
  stack : Stack 32 Word

namespace Cpu

def esp (c : Cpu) : Word := c.stack.pointer

def push (value : Word) (c : Cpu) : Cpu := { c with stack := c.stack.push 4 value }

/-- The interrupt flag. -/
def interruptFlag : Word := 0x200

end Cpu

/-- The instructions of the stub. -/
inductive Instr where
  | cli
  | sti
  | pusha
  | popa
  | pushSeg (register : SegReg)
  | popSeg (register : SegReg)
  | movAx (value : BitVec 16)
  | movSegAx (register : SegReg)
  | pushEsp
  | addEsp (value : Word)
  | call (returnAddress : Word)
  | iret

/-- One instruction. A `call` goes as far as the first instruction of the callee. -/
def Cpu.exec (c : Cpu) : Instr → Cpu
  | .cli => { c with eflags := c.eflags &&& ~~~Cpu.interruptFlag }
  | .sti => { c with eflags := c.eflags ||| Cpu.interruptFlag }
  | .pusha =>
      let esp := c.esp
      { c with stack := c.stack.pushAll 4 [c.eax, c.ecx, c.edx, c.ebx, esp, c.ebp, c.esi, c.edi] }
  | .popa =>
      let (edi, stack) := c.stack.pop 4
      let (esi, stack) := stack.pop 4
      let (ebp, stack) := stack.pop 4
      -- The saved `esp` is skipped.
      let (_, stack) := stack.pop 4
      let (ebx, stack) := stack.pop 4
      let (edx, stack) := stack.pop 4
      let (ecx, stack) := stack.pop 4
      let (eax, stack) := stack.pop 4
      { c with eax, ecx, edx, ebx, ebp, esi, edi, stack }
  | .pushSeg register => c.push ((c.segment register).setWidth 32)
  | .popSeg register =>
      let (value, stack) := c.stack.pop 4
      { c with segment := Function.update c.segment register (value.setWidth 16), stack }
  | .movAx value => { c with eax := join 0xFFFF0000 c.eax (value.setWidth 32) }
  | .movSegAx register =>
      { c with segment := Function.update c.segment register (c.eax.setWidth 16) }
  | .pushEsp => c.push c.esp
  | .addEsp value => { c with stack := { c.stack with pointer := c.stack.pointer + value } }
  | .call returnAddress => c.push returnAddress
  | .iret =>
      let (eip, stack) := c.stack.pop 4
      let (cs, stack) := stack.pop 4
      let (eflags, stack) := stack.pop 4
      { c with eip, cs := cs.setWidth 16, eflags, stack }

/-- A sequence of instructions. -/
def Cpu.run (c : Cpu) (program : List Instr) : Cpu := program.foldl Cpu.exec c

/-! ## The stub -/

/-- `isr_page_fault` up to the start of the handler. -/
def isrPageFaultEntry (returnAddress : Word) : List Instr :=
  [.cli, .pusha, .pushSeg .ds, .pushSeg .es, .pushSeg .fs, .pushSeg .gs, .movAx 0x10, .movSegAx .ds,
    .movSegAx .es, .movSegAx .fs, .movSegAx .gs, .pushEsp, .call returnAddress]

/-- `isr_page_fault` from the return of the handler on. -/
def isrPageFaultExit : List Instr :=
  [.addEsp 4, .popSeg .gs, .popSeg .fs, .popSeg .es, .popSeg .ds, .popa, .addEsp 4, .sti, .iret]

/-- `isr_page_fault` around a handler that runs from its first instruction to its
return. -/
def isrPageFault (returnAddress : Word) (handler : Cpu → Cpu) (c : Cpu) : Cpu :=
  (handler (c.run (isrPageFaultEntry returnAddress))).run isrPageFaultExit

/-- Where the interrupt gate for page faults leads. -/
structure Gate where
  selector : BitVec 16
  offset : Word

/-- The processor takes a page fault without a change of privilege. -/
def Cpu.takePageFault (gate : Gate) (errorCode : Word) (c : Cpu) : Cpu :=
  { c with
    stack := c.stack.pushAll 4 [c.eflags, c.cs.setWidth 32, c.eip, errorCode]
    eip := gate.offset
    cs := gate.selector
    eflags := c.eflags &&& ~~~Cpu.interruptFlag }

/-- A `page_fault_stack_t` in memory, field by field. -/
def readPageFaultStack (mem : Word → Word) (frame : Word) : PageFaultStack where
  ds := mem (cellAddr 4 frame 0)
  edi := mem (cellAddr 4 frame 1)
  esi := mem (cellAddr 4 frame 2)
  ebp := mem (cellAddr 4 frame 3)
  esp := mem (cellAddr 4 frame 4)
  ebx := mem (cellAddr 4 frame 5)
  edx := mem (cellAddr 4 frame 6)
  ecx := mem (cellAddr 4 frame 7)
  eax := mem (cellAddr 4 frame 8)
  intNo := mem (cellAddr 4 frame 9)
  errorCode := mem (cellAddr 4 frame 10)
  eip := mem (cellAddr 4 frame 11)
  cs := mem (cellAddr 4 frame 12)
  eflags := mem (cellAddr 4 frame 13)
  useresp := mem (cellAddr 4 frame 14)
  ss := mem (cellAddr 4 frame 15)

/-- What `page_fault_handler` reads through its argument, which lies above the return
address when it starts. -/
def handlerFrame (c : Cpu) : PageFaultStack := readPageFaultStack c.stack.mem (c.stack.slot 4 1)

section Layout

variable (gate : Gate) (errorCode returnAddress : Word) (c : Cpu)

/-- What the processor and the stub push before the argument, first value first. -/
def savedWords : List Word :=
  [c.eflags, c.cs.setWidth 32, c.eip, errorCode, c.eax, c.ecx, c.edx, c.ebx, c.esp - 4 - 4 - 4 - 4,
    c.ebp, c.esi, c.edi, (c.segment .ds).setWidth 32, (c.segment .es).setWidth 32,
    (c.segment .fs).setWidth 32, (c.segment .gs).setWidth 32]

/-- The processor at the start of the handler. -/
def atHandler : Cpu := (c.takePageFault gate errorCode).run (isrPageFaultEntry returnAddress)

/-- The argument is the stack pointer after the last saved register. -/
def frameAddr : Word := (c.stack.pushAll 4 (savedWords errorCode c)).pointer

theorem stack_atHandler :
    (atHandler gate errorCode returnAddress c).stack =
      ((c.stack.pushAll 4 (savedWords errorCode c)).push 4 (frameAddr errorCode c)).push 4
        returnAddress :=
  rfl

/-- The saved words lie above the argument and the return address. -/
theorem mem_atHandler {index : ℕ} {value : Word}
    (saved : (savedWords errorCode c).reverse[index]? = some value) :
    (atHandler gate errorCode returnAddress c).stack.mem (cellAddr 4 (frameAddr errorCode c) index) =
      value := by
  have length : (savedWords errorCode c).length = 16 := rfl
  have holds : (c.stack.pushAll 4 (savedWords errorCode c)).Holds 4 (savedWords errorCode c).reverse :=
    Stack.holds_pushAll (by decide) _ (by rw [length]; decide)
  have argument := holds.push (by decide) (by rw [List.length_reverse, length]; decide)
    (frameAddr errorCode c)
  have all := argument.push (by decide) (by rw [List.length_cons, List.length_reverse, length]; decide)
    returnAddress
  have found := all (index + 2) value (by
    rw [List.getElem?_cons_succ, List.getElem?_cons_succ]
    exact saved)
  rw [Stack.slot, Stack.cellAddr_pointer_push, Stack.cellAddr_pointer_push] at found
  rw [stack_atHandler]
  exact found

/-- **All that the processor and the stub store** are the eighteen words below the stack pointer. -/
theorem mem_atHandler_of_not_below {frame : PageFaultStack} (room : HasRoom 72 ⟨c.esp, frame⟩)
    {addr : Word} (aligned : 4 ∣ addr.toNat) (above : ¬ BelowStack 72 c.esp addr) :
    (atHandler gate errorCode returnAddress c).stack.mem addr = c.stack.mem addr := by
  let words := savedWords errorCode c ++ [frameAddr errorCode c, returnAddress]
  have length : words.length = 18 := rfl
  have pushed : (atHandler gate errorCode returnAddress c).stack = c.stack.pushAll 4 words := rfl
  have enough : identityLimit.toNat + 72 ≤ c.stack.pointer.toNat := room.1
  have outside : addr.toNat + 72 < c.stack.pointer.toNat ∨ c.stack.pointer.toNat ≤ addr.toNat := by
    by_contra inside
    refine above ⟨?_, ?_, aligned⟩
    · change c.stack.pointer.toNat ≤ addr.toNat + 72
      omega
    · change addr.toNat < c.stack.pointer.toNat
      omega
  rw [pushed]
  refine Stack.mem_pushAll_of_outside (by decide) words ?_ ?_
  · rw [length]
    omega
  · rw [length]
    exact outside

/-- **What the handler takes for the saved frame.** The segment registers fill the
first four fields, and every later field is a register saved further up. -/
theorem handlerFrame_eq :
    handlerFrame (atHandler gate errorCode returnAddress c) =
      { ds := (c.segment .gs).setWidth 32
        edi := (c.segment .fs).setWidth 32
        esi := (c.segment .es).setWidth 32
        ebp := (c.segment .ds).setWidth 32
        esp := c.edi
        ebx := c.esi
        edx := c.ebp
        ecx := c.esp - 4 - 4 - 4 - 4
        eax := c.ebx
        intNo := c.edx
        errorCode := c.ecx
        eip := c.eax
        cs := errorCode
        eflags := c.eip
        useresp := c.cs.setWidth 32
        ss := c.eflags } := by
  have argument : (atHandler gate errorCode returnAddress c).stack.slot 4 1 = frameAddr errorCode c := by
    have empty : (c.stack.pushAll 4 (savedWords errorCode c)).Holds 4 [] := fun _ _ lookup => by
      cases lookup
    have pushed := empty.push (by decide) (by decide) (frameAddr errorCode c)
    exact pushed.push (by decide) (by rw [List.length_singleton]; decide) returnAddress 1 _ rfl
  have word : ∀ index value, (savedWords errorCode c).reverse[index]? = some value →
      (atHandler gate errorCode returnAddress c).stack.mem (cellAddr 4 (frameAddr errorCode c) index) =
        value := fun _ _ saved => mem_atHandler gate errorCode returnAddress c saved
  rw [handlerFrame, argument]
  -- The sixteen fields are the sixteen words, so the memory is no longer needed.
  generalize (atHandler gate errorCode returnAddress c).stack.mem = mem at word
  rw [readPageFaultStack, word 0 _ rfl, word 1 _ rfl, word 2 _ rfl, word 3 _ rfl, word 4 _ rfl,
    word 5 _ rfl, word 6 _ rfl, word 7 _ rfl, word 8 _ rfl, word 9 _ rfl, word 10 _ rfl, word 11 _ rfl,
    word 12 _ rfl, word 13 _ rfl, word 14 _ rfl, word 15 _ rfl]

/-- **The handler reads the processor's frame exactly when the registers happen to
agree**: `ECX` with the error code, `EAX` with `EIP`, the error code with `CS`, and
`EDI` with the stack pointer of the interrupted code. -/
theorem handlerFrame_agrees_iff :
    ((handlerFrame (atHandler gate errorCode returnAddress c)).errorCode = errorCode ∧
        (handlerFrame (atHandler gate errorCode returnAddress c)).eip = c.eip ∧
        (handlerFrame (atHandler gate errorCode returnAddress c)).cs = c.cs.setWidth 32 ∧
        (handlerFrame (atHandler gate errorCode returnAddress c)).esp = c.esp) ↔
      c.ecx = errorCode ∧ c.eax = c.eip ∧ errorCode = c.cs.setWidth 32 ∧ c.edi = c.esp := by
  rw [handlerFrame_eq]

end Layout

/-- A kernel interrupted at `0x10400`. -/
def sampleCpu : Cpu where
  eax := 0
  ecx := 7
  edx := 0
  ebx := 0
  ebp := 0xC2FFFFE8
  esi := 0
  edi := 0
  segment _ := 0x10
  eip := 0x10400
  cs := 0x08
  eflags := 0x2
  stack := ⟨0xC2FFFFC0, fun _ => 0⟩

/-- A write fault with error code 2 is seen as error code 7 at address 0, in segment 2,
with stack pointer 0. -/
theorem handlerFrame_sampleCpu :
    (handlerFrame (atHandler ⟨0x08, 0x10200⟩ 2 0x10220 sampleCpu)).errorCode = 7 ∧
      (handlerFrame (atHandler ⟨0x08, 0x10200⟩ 2 0x10220 sampleCpu)).eip = 0 ∧
      (handlerFrame (atHandler ⟨0x08, 0x10200⟩ 2 0x10220 sampleCpu)).cs = 2 ∧
      (handlerFrame (atHandler ⟨0x08, 0x10200⟩ 2 0x10220 sampleCpu)).esp = 0 ∧
      sampleCpu.eip = 0x10400 ∧ sampleCpu.cs = 0x08 ∧ sampleCpu.esp = 0xC2FFFFC0 := by
  rw [handlerFrame_eq]
  exact ⟨rfl, rfl, rfl, rfl, rfl, rfl, rfl⟩

end KernelV.Arch
