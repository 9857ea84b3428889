import KernelV.Library.Alignment
import KernelV.Memory.MemoryMap
import Mathlib.Logic.Relation

/-!
# The way to the double fault handler

A double fault is to be handled by another task: vector 8 of the interrupt table is a task
gate, its selector names a descriptor in the global table, and the descriptor names the
task state `tss_df`, which has a stack and a page directory of its own.

The three initializers agree on all of that. Whatever the link addresses are, the gate is
present, the selector lies inside the table, and the descriptor decodes to `tss_df` with a
limit of `0x67` (`TablesReady.leadsToTss`). But `gdt_init` ends with an `ltr` of the same
selector. The processor marks the descriptor that it loads as busy, and a task gate to a
busy task faults, so no double fault is ever delivered (`doubleFault_undeliverable`).

The tables are the arrays of the program. The processor finds their entries by address,
through the two registers that hold base and limit.
-/

set_option autoImplicit false

namespace KernelV.Arch

open Library Memory

/-! ## The tables -/

/-- `struct gdt_entry`. -/
structure GdtEntry where
  limitLow : BitVec 16
  baseLow : BitVec 16
  baseMiddle : BitVec 8
  access : BitVec 8
  granularity : BitVec 8
  baseHigh : BitVec 8
  deriving DecidableEq, Repr

/-- `idt_entry_t`. -/
structure IdtEntry where
  baseLow : BitVec 16
  sel : BitVec 16
  always0 : BitVec 8
  flags : BitVec 8
  baseHigh : BitVec 16
  deriving DecidableEq, Repr

/-- `struct gdt_ptr` and `idt_ptr_t`, and the registers loaded from them. -/
structure TablePtr where
  limit : BitVec 16
  base : Word
  deriving DecidableEq, Repr

/-- `struct tss_entry`. -/
structure TssEntry where
  prevTss : Word := 0
  esp0 : Word := 0
  ss0 : Word := 0
  esp1 : Word := 0
  ss1 : Word := 0
  esp2 : Word := 0
  ss2 : Word := 0
  cr3 : Word := 0
  eip : Word := 0
  eflags : Word := 0
  eax : Word := 0
  ecx : Word := 0
  edx : Word := 0
  ebx : Word := 0
  esp : Word := 0
  ebp : Word := 0
  esi : Word := 0
  edi : Word := 0
  es : Word := 0
  cs : Word := 0
  ss : Word := 0
  ds : Word := 0
  fs : Word := 0
  gs : Word := 0
  ldt : Word := 0
  trap : BitVec 16 := 0
  iomapBase : BitVec 16 := 0
  deriving DecidableEq, Repr

/-- `sizeof(struct tss_entry)`: 25 words and two half words. -/
def tssSize : Word := 25 * 4 + 2 * 2

abbrev gdtEntries : ℕ := 4
abbrev idtEntries : ℕ := 256
def doubleFaultStackSize : Word := 0x1000

/-- Where the linker puts the objects. -/
structure LinkMap where
  tssDf : Word
  gdt : Word
  idt : Word
  doubleFaultStack : Word
  doubleFaultHandler : Word
  isrPageFault : Word

/-- The tables and the registers of the processor that refer to them. -/
structure Platform where
  gdt : Fin gdtEntries → GdtEntry
  gdtp : TablePtr
  idt : Fin idtEntries → IdtEntry
  idtPtr : TablePtr
  tssDf : TssEntry
  gdtr : TablePtr
  idtr : TablePtr
  /-- The task register. -/
  tr : BitVec 16
  cr3 : Word

/-! ## The processor -/

/-- The index of the 8-byte entry at an address of an array. -/
def entryIndex (array : Word) (count : ℕ) (addr : Word) : Option (Fin count) :=
  let offset := (addr - array).toNat
  if inside : 8 ∣ offset ∧ offset / 8 < count then some ⟨offset / 8, inside.2⟩ else none

/-- The descriptor a selector names: in the global table, and inside its limit. -/
def Platform.descriptor (link : LinkMap) (s : Platform) (selector : BitVec 16) :
    Option (Fin gdtEntries) :=
  let index := (selector >>> 3).toNat
  if selector &&& 4 = 0 ∧ 8 * index + 7 ≤ s.gdtr.limit.toNat then
    entryIndex link.gdt gdtEntries (s.gdtr.base + BitVec.ofNat 32 (8 * index))
  else none

/-- The gate of an interrupt vector. -/
def Platform.gate (link : LinkMap) (s : Platform) (vector : BitVec 8) : Option IdtEntry :=
  if 8 * vector.toNat + 7 ≤ s.idtr.limit.toNat then
    (entryIndex link.idt idtEntries (s.idtr.base + BitVec.ofNat 32 (8 * vector.toNat))).map s.idt
  else none

/-- The present bit of a gate's flags or a descriptor's access byte. -/
def present (byte : BitVec 8) : Bool := byte &&& 0x80 != 0

/-- The type of a gate or a system descriptor, with the bit that sets system descriptors
apart from segments. -/
def systemType (byte : BitVec 8) : BitVec 8 := byte &&& 0x1F

def taskGateType : BitVec 8 := 0x5
def availableTssType : BitVec 8 := 0x9
def busyTssType : BitVec 8 := 0xB

namespace GdtEntry

/-- The base, put together again. -/
def base (entry : GdtEntry) : Word :=
  entry.baseHigh.setWidth 32 <<< 24 ||| entry.baseMiddle.setWidth 32 <<< 16 |||
    entry.baseLow.setWidth 32

/-- The limit, put together again and scaled if the granularity bit is set. -/
def limit (entry : GdtEntry) : Word :=
  let limit := (entry.granularity &&& 0x0F).setWidth 32 <<< 16 ||| entry.limitLow.setWidth 32
  if entry.granularity &&& 0x80 = 0 then limit else limit <<< 12 ||| 0xFFF

end GdtEntry

/-- `ltr`: the task register gets the selector of an available task, which becomes busy.
Any other selector faults. -/
def Platform.ltr (link : LinkMap) (selector : BitVec 16) (s : Platform) : Option Platform := do
  let index ← s.descriptor link selector
  let entry := s.gdt index
  if present entry.access ∧ systemType entry.access = availableTssType then
    some { s with
      gdt := Function.update s.gdt index { entry with access := entry.access ||| 0x2 }
      tr := selector }
  else none

/-! ## The initializers -/

/-- `set_gdt_entry`. -/
def setGdtEntry (num : Fin gdtEntries) (base limit : Word) (access gran : BitVec 8) (s : Platform) :
    Platform :=
  { s with
    gdt := Function.update s.gdt num
      { limitLow := (limit &&& 0xFFFF).setWidth 16
        baseLow := (base &&& 0xFFFF).setWidth 16
        baseMiddle := (base >>> 16 &&& 0xFF).setWidth 8
        access
        granularity := (limit >>> 16 &&& 0x0F).setWidth 8 ||| (gran &&& 0xF0)
        baseHigh := (base >>> 24 &&& 0xFF).setWidth 8 } }

/-- `gdt_init` up to `gdt_flush`, which loads the table. -/
def gdtFill (link : LinkMap) (s : Platform) : Platform :=
  let s := setGdtEntry 0 0 0 0 0 s
  let s := setGdtEntry 1 0 0xFFFFF 0x9A 0xCF s
  let s := setGdtEntry 2 0 0xFFFFF 0x92 0xCF s
  let s := setGdtEntry 3 link.tssDf (tssSize - 1) 0x89 0x40 s
  let gdtp : TablePtr := { limit := BitVec.ofNat 16 (8 * gdtEntries - 1), base := link.gdt }
  { s with gdtp, gdtr := gdtp }

/-- `gdt_init`. -/
def gdtInit (link : LinkMap) (s : Platform) : Option Platform := (gdtFill link s).ltr link 0x18

/-- `idt_set_gate`. -/
def idtSetGate (num : Fin idtEntries) (base : Word) (sel : BitVec 16) (flags : BitVec 8)
    (s : Platform) : Platform :=
  { s with
    idt := Function.update s.idt num
      { baseLow := (base &&& 0xFFFF).setWidth 16
        sel
        always0 := 0
        flags
        baseHigh := (base >>> 16 &&& 0xFFFF).setWidth 16 } }

/-- `set_task_gate`. -/
def setTaskGate (num : Fin idtEntries) (sel : BitVec 16) (s : Platform) : Platform :=
  { s with
    idt := Function.update s.idt num { baseLow := 0, sel, always0 := 0, flags := 0x85, baseHigh := 0 } }

/-- `idt_init`, with `idt_flush`. -/
def idtInit (link : LinkMap) (s : Platform) : Platform :=
  let idtPtr : TablePtr := { limit := BitVec.ofNat 16 (8 * idtEntries - 1), base := link.idt }
  let s := { s with idtPtr, idt := fun _ => ⟨0, 0, 0, 0, 0⟩ }
  let s := setTaskGate 8 0x18 s
  let s := idtSetGate 14 link.isrPageFault 0x08 0x8E s
  { s with idtr := idtPtr }

/-- `init_tss`. -/
def initTss (link : LinkMap) (s : Platform) : Platform :=
  { s with
    tssDf :=
      { ss := 0x10
        esp := link.doubleFaultStack + doubleFaultStackSize
        cs := 0x08
        eip := link.doubleFaultHandler
        eflags := 0x202
        cr3 := s.cr3
        ds := 0x10
        es := 0x10
        fs := 0x10
        gs := 0x10 } }

/-- `update_tss_cr3`. -/
def updateTssCr3 (s : Platform) : Platform := { s with tssDf := { s.tssDf with cr3 := s.cr3 } }

/-- The part of `kernel_main` that sets up the tables. -/
def bootTables (link : LinkMap) (s : Platform) : Option Platform :=
  gdtInit link (initTss link (idtInit link s))

/-- What the kernel does to the tables and registers from then on. -/
inductive Platform.Step : Platform → Platform → Prop where
  | updateTssCr3 (s : Platform) : Step s (updateTssCr3 s)
  /-- `paging_init` loads the page directory. -/
  | loadCr3 (s : Platform) (directory : Word) : Step s { s with cr3 := directory }

abbrev Platform.Run : Platform → Platform → Prop := Relation.ReflTransGen Platform.Step

/-! ## Delivery -/

/-- What vector 8 leads to: a present task gate, whose selector names a present descriptor of
the task state `tss_df`, of full size. -/
structure LeadsToTss (link : LinkMap) (s : Platform) (gate : IdtEntry) (index : Fin gdtEntries) :
    Prop where
  vector : s.gate link 8 = some gate
  gatePresent : present gate.flags = true
  gateType : systemType gate.flags = taskGateType
  selector : s.descriptor link gate.sel = some index
  descriptorPresent : present (s.gdt index).access = true
  base : (s.gdt index).base = link.tssDf
  limit : 0x67 ≤ (s.gdt index).limit

/-- A double fault is delivered if the task it leads to is available. -/
def DeliversDoubleFault (link : LinkMap) (s : Platform) : Prop :=
  ∃ gate index, LeadsToTss link s gate index ∧ systemType (s.gdt index).access = availableTssType

/-- Entries of an array are found at their addresses. -/
theorem entryIndex_self (array : Word) {count : ℕ} (fits : 8 * count ≤ 2 ^ 32) (index : Fin count) :
    entryIndex array count (array + BitVec.ofNat 32 (8 * index)) = some index := by
  have bound := index.isLt
  have offset : (array + BitVec.ofNat 32 (8 * index) - array).toNat = 8 * index := by
    rw [BitVec.add_comm, BitVec.add_sub_cancel, BitVec.toNat_ofNat, Nat.mod_eq_of_lt (by omega)]
  have quotient : 8 * (index : ℕ) / 8 = index := Nat.mul_div_cancel_left _ (by decide)
  simp only [entryIndex, offset, quotient]
  rw [dif_pos ⟨Nat.dvd_mul_right _ _, bound⟩]

/-! ## Split fields -/

/-- A base that was split into three fields is put together again. -/
theorem base_of_fields (base : Word) {entry : GdtEntry}
    (baseLow : entry.baseLow = (base &&& 0xFFFF).setWidth 16)
    (baseMiddle : entry.baseMiddle = (base >>> 16 &&& 0xFF).setWidth 8)
    (baseHigh : entry.baseHigh = (base >>> 24 &&& 0xFF).setWidth 8) : entry.base = base := by
  have low := toNat_lowField base 16 (show (0xFFFF : Word).toNat = 2 ^ 16 - 1 from rfl)
  have middle := toNat_field base 16 8 (show (0xFF : Word).toNat = 2 ^ 8 - 1 from rfl)
  have high := toNat_field base 24 8 (show (0xFF : Word).toNat = 2 ^ 8 - 1 from rfl)
  have bound := base.isLt
  rw [GdtEntry.base, baseLow, baseMiddle, baseHigh]
  apply BitVec.eq_of_toNat_eq
  have lowWord : (((base &&& 0xFFFF).setWidth 16).setWidth 32).toNat = base.toNat % 2 ^ 16 := by
    rw [BitVec.toNat_setWidth, low]
    omega
  have middleWord : (((base >>> 16 &&& 0xFF).setWidth 8).setWidth 32).toNat =
      base.toNat / 2 ^ 16 % 2 ^ 8 := by
    rw [BitVec.toNat_setWidth, middle]
    omega
  have highWord : (((base >>> 24 &&& 0xFF).setWidth 8).setWidth 32).toNat =
      base.toNat / 2 ^ 24 % 2 ^ 8 := by
    rw [BitVec.toNat_setWidth, high]
    omega
  have lower : (((base >>> 16 &&& 0xFF).setWidth 8).setWidth 32 <<< 16 |||
      ((base &&& 0xFFFF).setWidth 16).setWidth 32).toNat = base.toNat % 2 ^ 24 := by
    rw [toNat_shiftLeft_or (by omega) (by omega), middleWord, lowWord]
    omega
  rw [BitVec.or_assoc, toNat_shiftLeft_or (by omega) (by omega), lower, highWord]
  omega

/-! ## After the initializers -/

/-- The descriptor of the task state after `ltr`. -/
def tssDescriptor (link : LinkMap) : GdtEntry :=
  { limitLow := 0x67
    baseLow := (link.tssDf &&& 0xFFFF).setWidth 16
    baseMiddle := (link.tssDf >>> 16 &&& 0xFF).setWidth 8
    access := 0x8B
    granularity := 0x40
    baseHigh := (link.tssDf >>> 24 &&& 0xFF).setWidth 8 }

/-- What the initializers leave and the kernel keeps. -/
structure TablesReady (link : LinkMap) (s : Platform) : Prop where
  gdtr : s.gdtr = { limit := 31, base := link.gdt }
  idtr : s.idtr = { limit := 2047, base := link.idt }
  task : s.gdt 3 = tssDescriptor link
  vector : s.idt 8 = { baseLow := 0, sel := 0x18, always0 := 0, flags := 0x85, baseHigh := 0 }

/-- `ltr` of a selector that names a present, available task. -/
theorem Platform.ltr_eq {link : LinkMap} {s : Platform} {selector : BitVec 16} {index : Fin gdtEntries}
    (found : s.descriptor link selector = some index)
    (available : present (s.gdt index).access ∧ systemType (s.gdt index).access = availableTssType) :
    s.ltr link selector =
      some { s with
        gdt := Function.update s.gdt index
          { s.gdt index with access := (s.gdt index).access ||| 0x2 }
        tr := selector } := by
  rw [ltr, found]
  exact if_pos available

theorem descriptor_of_gdtr {link : LinkMap} {s : Platform}
    (gdtr : s.gdtr = { limit := 31, base := link.gdt }) : s.descriptor link 0x18 = some 3 := by
  have found := entryIndex_self link.gdt (show 8 * gdtEntries ≤ 2 ^ 32 by decide) 3
  have inside : (0x18 : BitVec 16) &&& 4 = 0 ∧ 8 * ((0x18 : BitVec 16) >>> 3).toNat + 7 ≤ 31 := by decide
  rw [Platform.descriptor, gdtr]
  exact (if_pos inside).trans found

/-- **The initializers run to their end.** -/
theorem bootTables_ready (link : LinkMap) (s : Platform) :
    ∃ t, bootTables link s = some t ∧ TablesReady link t := by
  have found : (gdtFill link (initTss link (idtInit link s))).descriptor link 0x18 = some 3 :=
    descriptor_of_gdtr rfl
  have available : present 0x89 = true ∧ systemType 0x89 = availableTssType := by decide
  have busy : (0x89 : BitVec 8) ||| 0x2 = 0x8B := by decide
  have limitLow : ((tssSize - 1) &&& 0xFFFF).setWidth 16 = (0x67 : BitVec 16) := by decide
  have granularity : ((tssSize - 1) >>> 16 &&& 0x0F).setWidth 8 ||| (0x40 &&& 0xF0) =
    (0x40 : BitVec 8) := by decide
  refine ⟨_, Platform.ltr_eq found available, rfl, rfl, ?_, rfl⟩
  simp only [gdtFill, setGdtEntry, Function.update_self, tssDescriptor, busy, limitLow, granularity]

/-- The kernel no longer touches the two tables. -/
theorem TablesReady.step {link : LinkMap} {s t : Platform} (ready : TablesReady link s)
    (step : Platform.Step s t) : TablesReady link t := by
  cases step with
  | updateTssCr3 => exact ⟨ready.gdtr, ready.idtr, ready.task, ready.vector⟩
  | loadCr3 directory => exact ⟨ready.gdtr, ready.idtr, ready.task, ready.vector⟩

theorem TablesReady.run {link : LinkMap} {s t : Platform} (ready : TablesReady link s)
    (run : Platform.Run s t) : TablesReady link t := by
  induction run with
  | refl => exact ready
  | tail _ step ih => exact ih.step step

/-- **The gate, the selector and the descriptor lead to the task state**, which is marked
busy. -/
theorem TablesReady.leadsToTss {link : LinkMap} {s : Platform} (ready : TablesReady link s) :
    LeadsToTss link s (s.idt 8) 3 ∧ systemType (s.gdt 3).access = busyTssType := by
  have found := entryIndex_self link.idt (show 8 * idtEntries ≤ 2 ^ 32 by decide) 8
  have inside : 8 * (8 : BitVec 8).toNat + 7 ≤ 2047 := by decide
  refine ⟨⟨?_, ?_, ?_, ?_, ?_, ?_, ?_⟩, ?_⟩
  · rw [Platform.gate, ready.idtr]
    exact (if_pos inside).trans (congrArg (Option.map s.idt) found)
  · rw [ready.vector]
    rfl
  · rw [ready.vector]
    rfl
  · rw [ready.vector]
    exact descriptor_of_gdtr ready.gdtr
  · rw [ready.task]
    exact (show present 0x8B = true by decide)
  · rw [ready.task]
    exact base_of_fields link.tssDf rfl rfl rfl
  · rw [ready.task]
    exact (show 0x67 ≤ GdtEntry.limit ⟨0x67, 0, 0, 0, 0x40, 0⟩ by decide)
  · rw [ready.task]
    exact (show systemType 0x8B = busyTssType by decide)

/-- A task gate to a busy task delivers nothing. -/
theorem TablesReady.not_delivers {link : LinkMap} {s : Platform} (ready : TablesReady link s) :
    ¬ DeliversDoubleFault link s := by
  rintro ⟨gate, index, leads, available⟩
  obtain ⟨reached, busy⟩ := ready.leadsToTss
  obtain rfl : gate = s.idt 8 := Option.some.inj (leads.vector.symm.trans reached.vector)
  obtain rfl : index = 3 := Option.some.inj (leads.selector.symm.trans reached.selector)
  rw [busy] at available
  exact absurd available (by decide)

/-- **No double fault is ever delivered.** Whatever the link addresses are and whatever the
memory held, in every state after the initializers vector 8 leads to the task state, and the
task is busy. -/
theorem doubleFault_undeliverable (link : LinkMap) (start : Platform) :
    ∃ ready, bootTables link start = some ready ∧
      ∀ s, Platform.Run ready s →
        LeadsToTss link s (s.idt 8) 3 ∧ ¬ DeliversDoubleFault link s := by
  obtain ⟨ready, boot, tables⟩ := bootTables_ready link start
  refine ⟨ready, boot, fun s run => ?_⟩
  exact ⟨(tables.run run).leadsToTss.1, (tables.run run).not_delivers⟩

/-- Some link addresses in the image, which is loaded at `0x10000`. -/
def sampleLink : LinkMap where
  tssDf := 0x1A120
  gdt := 0x1A0E0
  idt := 0x198E0
  doubleFaultStack := 0x188E0
  doubleFaultHandler := 0x10030
  isrPageFault := 0x10060

/-- The platform before the initializers. -/
def coldPlatform : Platform where
  gdt _ := ⟨0, 0, 0, 0, 0, 0⟩
  gdtp := ⟨0, 0⟩
  idt _ := ⟨0, 0, 0, 0, 0⟩
  idtPtr := ⟨0, 0⟩
  tssDf := {}
  gdtr := ⟨0, 0⟩
  idtr := ⟨0, 0⟩
  tr := 0
  cr3 := 0

/-- Right after the initializers the double fault handler is already out of reach. -/
theorem doubleFault_busy_sampleLink :
    ¬ ∀ ready s, bootTables sampleLink coldPlatform = some ready → Platform.Run ready s →
      DeliversDoubleFault sampleLink s := by
  intro delivers
  obtain ⟨ready, boot, tables⟩ := bootTables_ready sampleLink coldPlatform
  exact tables.not_delivers (delivers ready ready boot .refl)

end KernelV.Arch
