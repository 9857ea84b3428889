import KernelV.Arch.DoubleFault

/-!
# What the processor does with a vector

The interrupt table has two gates: the task gate for double faults and the interrupt gate for page
faults. All other entries are zero, which is no gate at all, so the delivery of their vectors
faults. That fault has a vector too, and its entry is zero as well. Two faults of this kind make
a double fault, whose task is busy, and the processor shuts down.

Therefore every exception but a page fault, and every interrupt, resets the machine, whatever its
stack looks like; a page fault does so if the words of its frame cannot be pushed
(`raise_after_boot`). In particular the kernel cannot enable interrupts. The timer arrives at
vector 8 as long as the interrupt controller has not been moved, and the gate there is the task
gate of the busy task.

The processor is described for code that runs at the highest privilege and in flat segments.
-/

set_option autoImplicit false

namespace KernelV.Arch

open Library Memory

/-! ## Delivery of one vector -/

/-- The faults that the delivery of a vector can raise. -/
inductive DeliveryFault where
  | notPresent
  | generalProtection
  | pageFault
  deriving DecidableEq, Repr

def DeliveryFault.vector : DeliveryFault → BitVec 8
  | .notPresent => 11
  | .generalProtection => 13
  | .pageFault => 14

/-- An exception of the processor, or an interrupt: of a device or by `int`. -/
structure Event where
  vector : BitVec 8
  isException : Bool
  deriving DecidableEq, Repr

/-- Some exceptions push an error code after the return address. -/
def Event.hasErrorCode (event : Event) : Bool :=
  event.isException && decide (event.vector ∈ ([8, 10, 11, 12, 13, 14, 17] : List (BitVec 8)))

/-- The number of words pushed: the flags, the code segment, the return address, and perhaps an
error code. -/
def Event.frameWords (event : Event) : ℕ := if event.hasErrorCode then 4 else 3

/-- Where the processor goes on. -/
inductive Delivery where
  | enters (selector : BitVec 16) (offset : Word)
  | switches (task : Fin gdtEntries)
  | raises (fault : DeliveryFault)
  deriving DecidableEq, Repr

/-- The offset of an interrupt gate or a trap gate. The 16-bit ones have half of it. -/
def IdtEntry.offset (gate : IdtEntry) : Word :=
  if gate.flags &&& 0x8 = 0 then gate.baseLow.setWidth 32
  else gate.baseHigh.setWidth 32 <<< 16 ||| gate.baseLow.setWidth 32

/-- Interrupt gates and trap gates, of 16 or 32 bits. -/
def entersHandler (flags : BitVec 8) : Bool :=
  systemType flags &&& 0x17 = 0x6 || systemType flags &&& 0x17 = 0x7

/-- The descriptor of a code segment. -/
def isCodeSegment (access : BitVec 8) : Bool := access &&& 0x18 = 0x18

variable (link : LinkMap)

/-- The end of a task gate. -/
def Platform.deliverTask (s : Platform) (gate : IdtEntry) : Delivery :=
  if present gate.flags = false then .raises .notPresent
  else match s.descriptor link gate.sel with
    | none => .raises .generalProtection
    | some index =>
        if systemType (s.gdt index).access ≠ availableTssType then .raises .generalProtection
        else if present (s.gdt index).access = false then .raises .notPresent
        else .switches index

/-- The end of an interrupt gate or a trap gate. -/
def Platform.deliverHandler (s : Platform) (room words : ℕ) (gate : IdtEntry) : Delivery :=
  if present gate.flags = false then .raises .notPresent
  else if gate.sel &&& 0xFFFC = 0 then .raises .generalProtection
  else match s.descriptor link gate.sel with
    | none => .raises .generalProtection
    | some index =>
        if isCodeSegment (s.gdt index).access = false then .raises .generalProtection
        else if present (s.gdt index).access = false then .raises .notPresent
        else if (s.gdt index).limit < gate.offset then .raises .generalProtection
        else if room < words then .raises .pageFault
        else .enters gate.sel gate.offset

/-- The delivery of an event on a stack that has room for some words before a push faults. -/
def Platform.deliver (s : Platform) (room : ℕ) (event : Event) : Delivery :=
  match s.gate link event.vector with
  | none => .raises .generalProtection
  | some gate =>
      if systemType gate.flags = taskGateType then s.deliverTask link gate
      else if entersHandler gate.flags then s.deliverHandler link room event.frameWords gate
      else .raises .generalProtection

/-! ## Faults during delivery -/

/-- How an event combines with a fault during its delivery. -/
inductive EventClass where
  | benign
  | contributory
  | pageFault
  | doubleFault
  deriving DecidableEq, Repr

def Event.eventClass (event : Event) : EventClass :=
  if event.isException = false then .benign
  else if event.vector = 8 then .doubleFault
  else if event.vector = 14 then .pageFault
  else if event.vector ∈ ([0, 10, 11, 12, 13] : List (BitVec 8)) then .contributory
  else .benign

def doubleFaultEvent : Event := ⟨8, true⟩

/-- The event after a fault during the delivery of another one; there is none if the processor
shuts down. -/
def Event.combine (event : Event) (fault : DeliveryFault) : Option Event :=
  match event.eventClass, fault with
  | .doubleFault, _ => none
  | .pageFault, _ => some doubleFaultEvent
  | .contributory, .pageFault => some ⟨14, true⟩
  | .contributory, _ => some doubleFaultEvent
  | .benign, fault => some ⟨fault.vector, true⟩

/-- What an event comes to in the end. -/
inductive Outcome where
  | enters (selector : BitVec 16) (offset : Word)
  | switches (task : Fin gdtEntries)
  | shutdown
  deriving DecidableEq, Repr

/-- An event and the faults during its delivery, as many events as `rounds`. -/
def Platform.raise (s : Platform) (room : ℕ) : ℕ → Event → Option Outcome
  | 0, _ => none
  | rounds + 1, event =>
      match s.deliver link room event with
      | .enters selector offset => some (.enters selector offset)
      | .switches task => some (.switches task)
      | .raises fault =>
          match event.combine fault with
          | none => some .shutdown
          | some next => s.raise room rounds next

/-- The number of events that can still follow, with the event itself. -/
def EventClass.rank : EventClass → ℕ
  | .benign => 4
  | .contributory => 3
  | .pageFault => 2
  | .doubleFault => 1

theorem rank_combine {event next : Event} {fault : DeliveryFault}
    (combined : event.combine fault = some next) :
    next.eventClass.rank < event.eventClass.rank := by
  cases kind : event.eventClass with
  | doubleFault =>
      simp only [Event.combine, kind] at combined
      cases combined
  | pageFault =>
      simp only [Event.combine, kind, Option.some.injEq] at combined
      rw [← combined]
      decide
  | contributory =>
      cases fault <;> simp only [Event.combine, kind, Option.some.injEq] at combined <;>
        rw [← combined] <;> decide
  | benign =>
      cases fault <;> simp only [Event.combine, kind, Option.some.injEq] at combined <;>
        rw [← combined] <;> decide

/-- **Four events are enough**: the chain of faults ends for any tables. -/
theorem raise_isSome (s : Platform) (room : ℕ) {rounds : ℕ} {event : Event}
    (enough : event.eventClass.rank ≤ rounds) :
    ∃ outcome, s.raise link room rounds event = some outcome := by
  induction rounds generalizing event with
  | zero =>
      cases kind : event.eventClass <;> rw [kind] at enough <;> exact absurd enough (by decide)
  | succ rounds ih =>
      cases delivered : s.deliver link room event with
      | enters selector offset => exact ⟨.enters selector offset, by rw [Platform.raise, delivered]⟩
      | switches task => exact ⟨.switches task, by rw [Platform.raise, delivered]⟩
      | raises fault =>
          cases combined : event.combine fault with
          | none => exact ⟨.shutdown, by simp only [Platform.raise, delivered, combined]⟩
          | some next =>
              have fewer := rank_combine combined
              obtain ⟨outcome, raised⟩ := ih (show next.eventClass.rank ≤ rounds by omega)
              exact ⟨outcome, by simp only [Platform.raise, delivered, combined, raised]⟩

/-! ## The tables after boot -/

/-- The gate of `isr_page_fault`. -/
def pageFaultGate : IdtEntry :=
  { baseLow := (link.isrPageFault &&& 0xFFFF).setWidth 16
    sel := 0x08
    always0 := 0
    flags := 0x8E
    baseHigh := (link.isrPageFault >>> 16 &&& 0xFFFF).setWidth 16 }

/-- Every entry of the interrupt table, and the two descriptors that its gates lead to. -/
structure GatesReady (s : Platform) : Prop extends TablesReady link s where
  pageFault : s.idt 14 = pageFaultGate link
  others : ∀ vector, vector ≠ 8 → vector ≠ 14 → s.idt vector = ⟨0, 0, 0, 0, 0⟩
  code : s.gdt 1 = ⟨0xFFFF, 0, 0, 0x9A, 0xCF, 0⟩

theorem idtInit_others (s : Platform) {vector : Fin idtEntries} (notEight : vector ≠ 8)
    (notFourteen : vector ≠ 14) : (idtInit link s).idt vector = ⟨0, 0, 0, 0, 0⟩ := by
  simp only [idtInit, idtSetGate, setTaskGate, Function.update_of_ne notFourteen,
    Function.update_of_ne notEight]

/-- An offset that was split into two fields is put together again. -/
theorem offset_of_fields (offset : Word) {gate : IdtEntry} (wide : gate.flags &&& 0x8 ≠ 0)
    (baseLow : gate.baseLow = (offset &&& 0xFFFF).setWidth 16)
    (baseHigh : gate.baseHigh = (offset >>> 16 &&& 0xFFFF).setWidth 16) : gate.offset = offset := by
  have low := toNat_lowField offset 16 (show (0xFFFF : Word).toNat = 2 ^ 16 - 1 from rfl)
  have high := toNat_field offset 16 16 (show (0xFFFF : Word).toNat = 2 ^ 16 - 1 from rfl)
  have bound := offset.isLt
  rw [IdtEntry.offset, if_neg wide, baseLow, baseHigh]
  apply BitVec.eq_of_toNat_eq
  have lowWord : (((offset &&& 0xFFFF).setWidth 16).setWidth 32).toNat = offset.toNat % 2 ^ 16 := by
    rw [BitVec.toNat_setWidth, low]
    omega
  have highWord : (((offset >>> 16 &&& 0xFFFF).setWidth 16).setWidth 32).toNat =
      offset.toNat / 2 ^ 16 := by
    rw [BitVec.toNat_setWidth, high]
    omega
  rw [toNat_shiftLeft_or (by omega) (by omega), lowWord, highWord]
  omega

theorem bootTables_gates (s : Platform) : ∃ t, bootTables link s = some t ∧ GatesReady link t := by
  obtain ⟨t, boot, ready⟩ := bootTables_ready link s
  have found : (gdtFill link (initTss link (idtInit link s))).descriptor link 0x18 = some 3 :=
    descriptor_of_gdtr rfl
  have available : present 0x89 = true ∧ systemType 0x89 = availableTssType := by decide
  have loaded := Platform.ltr_eq found available
  have same : t = _ := Option.some.inj (boot.symm.trans loaded)
  refine ⟨t, boot, ready, ?_, fun vector notEight notFourteen => ?_, ?_⟩
  · rw [same]
    rfl
  · rw [same]
    exact idtInit_others link s notEight notFourteen
  · rw [same]
    rfl

variable {link}

theorem GatesReady.run {s t : Platform} (ready : GatesReady link s) (run : Platform.Run s t) :
    GatesReady link t := by
  induction run with
  | refl => exact ready
  | tail _ step ih =>
      have tables := ih.toTablesReady.step step
      cases step with
      | updateTssCr3 => exact ⟨tables, ih.pageFault, ih.others, ih.code⟩
      | loadCr3 directory => exact ⟨tables, ih.pageFault, ih.others, ih.code⟩

section Ready

variable {s : Platform} (ready : GatesReady link s)
include ready

/-- Every vector has an entry. -/
theorem GatesReady.gate_eq (vector : BitVec 8) :
    s.gate link vector = some (s.idt ⟨vector.toNat, vector.isLt⟩) := by
  have bound := vector.isLt
  have found := entryIndex_self link.idt (show 8 * idtEntries ≤ 2 ^ 32 by decide)
    ⟨vector.toNat, vector.isLt⟩
  have inside : 8 * vector.toNat + 7 ≤ (2047 : BitVec 16).toNat := by
    change _ ≤ 2047
    omega
  rw [Platform.gate, ready.idtr]
  exact (if_pos inside).trans (congrArg (Option.map s.idt) found)

theorem GatesReady.descriptor_code : s.descriptor link 0x08 = some 1 := by
  have found := entryIndex_self link.gdt (show 8 * gdtEntries ≤ 2 ^ 32 by decide) 1
  have inside : (0x08 : BitVec 16) &&& 4 = 0 ∧ 8 * ((0x08 : BitVec 16) >>> 3).toNat + 7 ≤ 31 := by decide
  rw [Platform.descriptor, ready.gdtr]
  exact (if_pos inside).trans found

/-- **All vectors but the one of page faults fault on delivery.** -/
theorem GatesReady.deliver_other (room : ℕ) {event : Event} (other : event.vector ≠ 14) :
    s.deliver link room event = .raises .generalProtection := by
  have notFourteen : (⟨event.vector.toNat, event.vector.isLt⟩ : Fin idtEntries) ≠ 14 := by
    intro same
    exact other (BitVec.eq_of_toNat_eq (congrArg Fin.val same))
  rw [Platform.deliver, ready.gate_eq]
  by_cases eight : (⟨event.vector.toNat, event.vector.isLt⟩ : Fin idtEntries) = 8
  · -- The task gate leads to the busy task.
    rw [eight, ready.vector]
    have selected := descriptor_of_gdtr ready.gdtr
    have busy := ready.leadsToTss.2
    have gatePresent : present 0x85 = true := by decide
    have notAvailable : busyTssType ≠ availableTssType := by decide
    have gateType : systemType 0x85 = taskGateType := by decide
    simp only [gateType, if_true, Platform.deliverTask, gatePresent, Bool.true_eq_false, if_false,
      selected, busy, notAvailable, ne_eq, not_false_eq_true]
  · rw [ready.others _ eight notFourteen]
    have notTask : systemType 0 ≠ taskGateType := by decide
    have notHandler : entersHandler 0 = false := by decide
    simp only [notTask, if_false, notHandler, Bool.false_eq_true]

/-- **Page faults enter `isr_page_fault` if their frame can be pushed.** -/
theorem GatesReady.deliver_pageFault (room : ℕ) {event : Event} (pageFault : event.vector = 14) :
    s.deliver link room event =
      if room < event.frameWords then .raises .pageFault else .enters 0x08 link.isrPageFault := by
  have notTask : systemType 0x8E ≠ taskGateType := by decide
  have handler : entersHandler 0x8E = true := by decide
  have gatePresent : present 0x8E = true := by decide
  have selector : (0x08 : BitVec 16) &&& 0xFFFC ≠ 0 := by decide
  have segment : isCodeSegment 0x9A = true := by decide
  have segmentPresent : present 0x9A = true := by decide
  have offset : (pageFaultGate link).offset = link.isrPageFault := by
    apply offset_of_fields
    · change (0x8E : BitVec 8) &&& 0x8 ≠ 0
      decide
    · rfl
    · rfl
  have whole : ¬ (s.gdt 1).limit < link.isrPageFault := by
    have top : GdtEntry.limit ⟨0xFFFF, 0, 0, 0x9A, 0xCF, 0⟩ = 0xFFFFFFFF := by decide
    rw [ready.code, top, BitVec.not_lt]
    exact BitVec.le_def.mpr (Nat.le_of_lt_succ link.isrPageFault.isLt)
  have found : s.gate link event.vector = some (pageFaultGate link) := by
    rw [ready.gate_eq, pageFault]
    exact congrArg some ready.pageFault
  have access : (s.gdt 1).access = 0x9A := by
    rw [ready.code]
  have flags : (pageFaultGate link).flags = 0x8E := rfl
  have sel : (pageFaultGate link).sel = 0x08 := rfl
  simp only [Platform.deliver, found, flags, notTask, if_false, handler, if_true,
    Platform.deliverHandler, gatePresent, Bool.true_eq_false, sel, selector, ready.descriptor_code,
    access, segment, segmentPresent, offset, whole]

/-- A double fault shuts the processor down. -/
theorem GatesReady.raise_doubleFault (room rounds : ℕ) :
    s.raise link room (rounds + 1) doubleFaultEvent = some .shutdown := by
  have delivered := ready.deliver_other room (show doubleFaultEvent.vector ≠ 14 by decide)
  have combined : doubleFaultEvent.combine .generalProtection = none := by decide
  simp only [Platform.raise, delivered, combined]

/-- So does an event whose delivery raises a general protection fault. -/
theorem GatesReady.raise_generalProtection (room rounds : ℕ) {event : Event}
    (delivered : s.deliver link room event = .raises .generalProtection) :
    s.raise link room (rounds + 3) event = some .shutdown := by
  have next := ready.deliver_other room (show (⟨13, true⟩ : Event).vector ≠ 14 by decide)
  have contributory : Event.combine ⟨13, true⟩ .generalProtection = some doubleFaultEvent := by decide
  have protection : s.raise link room (rounds + 2) ⟨13, true⟩ = some .shutdown := by
    rw [Platform.raise, next]
    simp only [contributory, ready.raise_doubleFault]
  cases kind : event.eventClass with
  | benign =>
      have combined : event.combine .generalProtection = some ⟨13, true⟩ := by
        simp only [Event.combine, kind, DeliveryFault.vector]
      simp only [Platform.raise, delivered, combined] at protection ⊢
      exact protection
  | contributory =>
      have combined : event.combine .generalProtection = some doubleFaultEvent := by
        simp only [Event.combine, kind]
      rw [Platform.raise, delivered]
      simp only [combined, ready.raise_doubleFault]
  | pageFault =>
      have combined : event.combine .generalProtection = some doubleFaultEvent := by
        simp only [Event.combine, kind]
      rw [Platform.raise, delivered]
      simp only [combined, ready.raise_doubleFault]
  | doubleFault =>
      have combined : event.combine .generalProtection = none := by
        simp only [Event.combine, kind]
      simp only [Platform.raise, delivered, combined]

/-- So does a page fault whose frame does not fit on the stack. -/
theorem GatesReady.raise_pageFault {room : ℕ} (full : room < 4) (rounds : ℕ) :
    s.raise link room (rounds + 2) ⟨14, true⟩ = some .shutdown := by
  have delivered := ready.deliver_pageFault room (show (⟨14, true⟩ : Event).vector = 14 from rfl)
  have words : Event.frameWords ⟨14, true⟩ = 4 := by decide
  have combined : Event.combine ⟨14, true⟩ .pageFault = some doubleFaultEvent := by decide
  rw [words, if_pos full] at delivered
  rw [Platform.raise, delivered]
  simp only [combined, ready.raise_doubleFault]

/-- The only event whose delivery can succeed is a page fault, or an `int` of its vector. -/
theorem GatesReady.raise_eq (room : ℕ) (event : Event) :
    s.raise link room 4 event =
      some (if event.vector = 14 ∧ event.frameWords ≤ room then .enters 0x08 link.isrPageFault
        else .shutdown) := by
  by_cases pageFault : event.vector = 14
  · have delivered := ready.deliver_pageFault room pageFault
    by_cases full : room < event.frameWords
    · rw [if_neg fun both => Nat.not_le.mpr full both.2]
      rw [if_pos full] at delivered
      cases exception : event.isException with
      | true =>
          obtain rfl : event = ⟨14, true⟩ := by
            cases event
            cases pageFault
            cases exception
            rfl
          exact ready.raise_pageFault full 2
      | false =>
          -- The processor goes on with a page fault, which needs one word more.
          have benign : event.eventClass = .benign := by
            rw [Event.eventClass, if_pos exception]
          have combined : event.combine .pageFault = some ⟨14, true⟩ := by
            simp only [Event.combine, benign, DeliveryFault.vector]
          have words : event.frameWords ≤ 4 := by
            rw [Event.frameWords]
            split <;> omega
          rw [Platform.raise, delivered]
          simp only [combined]
          exact ready.raise_pageFault (by omega) 1
    · rw [if_neg full] at delivered
      rw [if_pos ⟨pageFault, Nat.not_lt.mp full⟩, Platform.raise, delivered]
  · rw [if_neg fun both => pageFault both.1]
    exact ready.raise_generalProtection room 1 (ready.deliver_other room pageFault)

end Ready

/-- **After boot page faults are handled, and everything else resets the machine.** Whatever the
link addresses are, in every state after the initializers, an event of any vector enters
`isr_page_fault` if the vector is 14 and its frame can be pushed, and shuts the processor down
otherwise. -/
theorem raise_after_boot (link : LinkMap) (start : Platform) :
    ∃ ready, bootTables link start = some ready ∧
      ∀ s, Platform.Run ready s → ∀ room event,
        s.raise link room 4 event =
          some (if event.vector = 14 ∧ event.frameWords ≤ room then .enters 0x08 link.isrPageFault
            else .shutdown) := by
  obtain ⟨ready, boot, gates⟩ := bootTables_gates link start
  exact ⟨ready, boot, fun s run => (gates.run run).raise_eq⟩

/-- The first interrupt of the timer, at vector 8. -/
example (link : LinkMap) {s : Platform} (ready : GatesReady link s) :
    s.raise link 1024 4 ⟨8, false⟩ = some .shutdown :=
  ready.raise_eq 1024 ⟨8, false⟩

end KernelV.Arch
