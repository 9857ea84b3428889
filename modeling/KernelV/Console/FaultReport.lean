import KernelV.Console.Reports
import KernelV.Memory.DemandPaging

/-!
# What is left of a fault

A page fault that is neither in the heap nor in reach of the stack stops the machine. Before that
`page_fault_handler` reports it: a line with five numbers in hexadecimal, and a line for some bits of
the error code.

The report is the end of the log, whatever was logged before, and no other report is: the log of a
machine that such a fault has stopped tells the address, the error code, and the registers of the
fault (`strayFault_told`).
-/

set_option autoImplicit false

namespace KernelV.Console

open Library Memory

/-! ## The code -/

/-- What `page_fault_handler` prints from. -/
structure ReportedFault where
  faultAddress : Word
  frame : PageFaultStack
  esp : Word
  ebp : Word

def faultFmt : List Byte :=
  ascii "[PAGE FAULT] at address: 0x%x, error code: 0x%x [eip=0x%x, esp=0x%x, ebp=0x%x]\n" ++ [0]

def heapText : List Byte :=
  ascii "[PAGE FAULT] Address within kernel heap region: allocating and mapping new page.\n"

def growthFmt : List Byte :=
  ascii "[PF] Stack growth: mapping new stack page at 0x%x (esp=0x%x)\n" ++ [0]

/-- The tests of the error code, in order. -/
def flagTexts (errorCode : Word) : List (List Byte) :=
  (if errorCode &&& 0x1 = 0 then [ascii "[PAGE FAULT] Page not present.\n"] else []) ++
    (if errorCode &&& 0x2 ≠ 0 then [ascii "[PAGE FAULT] Write access.\n"] else []) ++
    (if errorCode &&& 0x4 ≠ 0 then [ascii "[PAGE FAULT] User mode access.\n"] else []) ++
    (if errorCode &&& 0x8 ≠ 0 then [ascii "[PAGE FAULT] Reserved bit set.\n"] else []) ++
    (if errorCode &&& 0x10 ≠ 0 then [ascii "[PAGE FAULT] Instruction fetch.\n"] else [])

/-- A call for a text without arguments. -/
def plainCall (site : Site) (chars : List Byte) : ConsoleCall := .printk site (chars ++ [0]) site.behind

namespace ReportedFault

/-- The arguments of the first line. -/
def args (fault : ReportedFault) (site : Site) : VaList
  | 0 => fault.faultAddress
  | 1 => fault.frame.errorCode
  | 2 => fault.frame.eip
  | 3 => fault.esp
  | 4 => fault.ebp
  | i + 5 => site.behind i

def growthArgs (fault : ReportedFault) (site : Site) : VaList
  | 0 => fault.faultAddress
  | 1 => fault.frame.esp
  | i + 2 => site.behind i

/-- The calls of `printk` that `page_fault_handler` makes itself, outside the guard page. What a call
finds in memory depends on its format. -/
def calls (fault : ReportedFault) (sites : List Byte → Site) : List ConsoleCall :=
  .printk (sites faultFmt) faultFmt (fault.args (sites faultFmt)) ::
    if kernelHeapStart ≤ fault.faultAddress ∧ fault.faultAddress < kernelHeapEnd then
      [plainCall (sites heapText) heapText]
    else if (kernelStackBottomVirt + pageSize ≤ fault.faultAddress ∧
          fault.faultAddress < kernelStackTopVirt) ∧
        (fault.frame.esp - stackGrowthGap ≤ fault.faultAddress ∧ fault.faultAddress < fault.frame.esp) then
      [.printk (sites growthFmt) growthFmt (fault.growthArgs (sites growthFmt))]
    else (flagTexts fault.frame.errorCode).map fun chars => plainCall (sites chars) chars

/-- A fault that stops the machine in the loop at the end of the handler. -/
def Stray (fault : ReportedFault) : Prop :=
  ¬ InGuardPage fault.faultAddress ∧ ¬ Recovers fault.faultAddress fault.frame

/-! ## The text -/

/-- The first line up to the mark. -/
def start : List Byte := ascii "[PAGE FAULT] at address"

/-- The first line behind the mark. -/
def numbersText (fault : ReportedFault) : List Byte :=
  ascii " 0x" ++ (numeral 16 fault.faultAddress.toNat ++ (ascii ", error code: 0x" ++
    (numeral 16 fault.frame.errorCode.toNat ++ (ascii " [eip=0x" ++
      (numeral 16 fault.frame.eip.toNat ++ (ascii ", esp=0x" ++ (numeral 16 fault.esp.toNat ++
        (ascii ", ebp=0x" ++ (numeral 16 fault.ebp.toNat ++ ascii "]\n")))))))))

/-- The report of a stray fault. -/
def text (fault : ReportedFault) : List Byte :=
  start ++ chr ':' :: (fault.numbersText ++ (flagTexts fault.frame.errorCode).flatten)

/-- What is printed of a stray fault. -/
def told (fault : ReportedFault) : Word × Word × Word × Word × Word :=
  (fault.faultAddress, fault.frame.errorCode, fault.frame.eip, fault.esp, fault.ebp)

end ReportedFault

/-! ## The lines for the error code -/

/-- All of them. -/
def flagLines : List (List Byte) :=
  [ascii "[PAGE FAULT] Page not present.\n", ascii "[PAGE FAULT] Write access.\n",
    ascii "[PAGE FAULT] User mode access.\n", ascii "[PAGE FAULT] Reserved bit set.\n",
    ascii "[PAGE FAULT] Instruction fetch.\n"]

theorem flagTexts_sublist (errorCode : Word) : (flagTexts errorCode).Sublist flagLines := by
  have line (chars : List Byte) (printed : Prop) [Decidable printed] :
      (if printed then [chars] else []).Sublist [chars] := by
    split
    case isTrue => exact List.Sublist.refl _
    case isFalse => exact List.nil_sublist _
  exact ((((line _ _).append (line _ _)).append (line _ _)).append (line _ _)).append (line _ _)

theorem flagLines_plain : ∀ chars ∈ flagLines,
    (∀ c ∈ chars, c ≠ 0 ∧ c ≠ chr '%') ∧ isLeveled (chars ++ [0]) = false ∧ chars.length ≤ 100 := by
  -- Over the lists and not over all bytes.
  have checked : flagLines.all (fun chars => chars.all (fun c => c ≠ 0 ∧ c ≠ chr '%') ∧
      isLeveled (chars ++ [0]) = false ∧ chars.length ≤ 100) = true := by decide
  simpa only [List.all_eq_true, decide_eq_true_eq] using checked

theorem flagLines_unmarked : ∀ chars ∈ flagLines, chr ':' ∉ chars := by decide

/-- A text without arguments is a format. -/
theorem partsFmt_plain {chars : List Byte} (isPlain : ∀ c ∈ chars, c ≠ 0 ∧ c ≠ chr '%') :
    partsFmt [.plain chars isPlain] = chars ++ [0] := by
  have literals (chars : List Byte) (isPlain : ∀ c ∈ chars, c ≠ 0 ∧ c ≠ chr '%') :
      formatChars (chars.pmap Directive.literal isPlain) = chars := by
    induction chars with
    | nil => rfl
    | cons c chars ih =>
        have rest := ih fun d inside => isPlain d (List.mem_cons_of_mem c inside)
        exact congrArg (c :: ·) rest
  rw [partsFmt, List.flatMap_singleton, Part.directives, literals]

/-- It is printed as it is. -/
theorem puts_plainCall (site : Site) {chars : List Byte} (isPlain : ∀ c ∈ chars, c ≠ 0 ∧ c ≠ chr '%')
    (plain : isLeveled (chars ++ [0]) = false) (short : chars.length ≤ 1023) :
    Puts (plainCall site chars) chars := by
  refine puts_printk plain fun message => ?_
  have shown : shownAll (site.strings message) [.plain chars isPlain] site.behind = chars :=
    List.append_nil chars
  have takes : TakesAll (site.strings message) [.plain chars isPlain] site.behind := ⟨trivial, trivial⟩
  rw [← partsFmt_plain isPlain, textOf_partsFmt _ takes (shown.symm ▸ short), shown]

theorem puts_flagTexts (errorCode : Word) (sites : List Byte → Site) :
    List.Forall₂ Puts ((flagTexts errorCode).map fun chars => plainCall (sites chars) chars)
      (flagTexts errorCode) := by
  rw [List.forall₂_map_left_iff, List.forall₂_same]
  intro chars member
  obtain ⟨isPlain, plain, short⟩ := flagLines_plain chars ((flagTexts_sublist errorCode).subset member)
  exact puts_plainCall (sites chars) isPlain plain (by omega)

/-! ## The first line -/

def faultParts : List Part :=
  [.plain (ascii "[PAGE FAULT] at address: 0x") (by decide), .hex,
    .plain (ascii ", error code: 0x") (by decide), .hex, .plain (ascii " [eip=0x") (by decide), .hex,
    .plain (ascii ", esp=0x") (by decide), .hex, .plain (ascii ", ebp=0x") (by decide), .hex,
    .plain (ascii "]\n") (by decide)]

theorem partsFmt_faultParts : partsFmt faultParts = faultFmt := by decide

theorem length_hex_le (word : Word) : (numeral 16 word.toNat).length ≤ 8 :=
  length_numeral_le (by decide) (by decide) word.isLt

namespace ReportedFault

theorem length_numbersText_le (fault : ReportedFault) : fault.numbersText.length ≤ 85 := by
  have address := length_hex_le fault.faultAddress
  have code := length_hex_le fault.frame.errorCode
  have eip := length_hex_le fault.frame.eip
  have esp := length_hex_le fault.esp
  have ebp := length_hex_le fault.ebp
  have literals : (ascii " 0x").length = 3 ∧ (ascii ", error code: 0x").length = 16 ∧
      (ascii " [eip=0x").length = 8 ∧ (ascii ", esp=0x").length = 8 ∧ (ascii ", ebp=0x").length = 8 ∧
        (ascii "]\n").length = 2 := ⟨rfl, rfl, rfl, rfl, rfl, rfl⟩
  simp only [numbersText, List.length_append, literals]
  omega

theorem puts_faultFmt (fault : ReportedFault) (site : Site) :
    Puts (.printk site faultFmt (fault.args site)) (start ++ chr ':' :: fault.numbersText) := by
  refine puts_printk (by decide) fun message => ?_
  have shown : shownAll (site.strings message) faultParts (fault.args site) =
      start ++ chr ':' :: fault.numbersText := by
    simp only [faultParts, shownAll, Part.shown, Part.nextArgs, VaList.next, List.append_nil]
    rfl
  have takes : TakesAll (site.strings message) faultParts (fault.args site) :=
    ⟨trivial, trivial, trivial, trivial, trivial, trivial, trivial, trivial, trivial, trivial, trivial,
      trivial⟩
  have fits : (start ++ chr ':' :: fault.numbersText).length ≤ logBufSize - 1 := by
    have numbers := fault.length_numbersText_le
    have before : start.length = 23 := rfl
    have room : logBufSize - 1 = 1023 := rfl
    rw [List.length_append, List.length_cons, before, room]
    omega
  rw [← partsFmt_faultParts, textOf_partsFmt _ takes (shown.symm ▸ fits), shown]

/-! ## Reading the report -/

theorem tells_numbersText : Tells numbersText told := by
  have number (field : ReportedFault → Word) {separator : Byte} (noDigit : separator ∉ hexChars) :
      Tells (fun fault => numeral 16 (field fault).toNat ++ [separator]) field :=
    fun fault other => tells_hex noDigit (field fault) (field other)
  have comma : chr ',' ∉ hexChars := by decide
  have ebp := (number ReportedFault.ebp (by decide : chr ']' ∉ hexChars)).append
    (Tells.const (ascii "\n") ())
  have esp := (number ReportedFault.esp comma).append ((Tells.const (ascii " ebp=0x") ()).append ebp)
  have eip := (number (fun fault => fault.frame.eip) comma).append
    ((Tells.const (ascii " esp=0x") ()).append esp)
  have code := (number (fun fault => fault.frame.errorCode) (by decide : chr ' ' ∉ hexChars)).append
    ((Tells.const (ascii "[eip=0x") ()).append eip)
  have address := (number faultAddress comma).append
    ((Tells.const (ascii " error code: 0x") ()).append code)
  have whole := (Tells.const (ascii " 0x") ()).append address
  have text : numbersText = fun fault => ascii " 0x" ++ (numeral 16 fault.faultAddress.toNat ++ [chr ','] ++
      (ascii " error code: 0x" ++ (numeral 16 fault.frame.errorCode.toNat ++ [chr ' '] ++
        (ascii "[eip=0x" ++ (numeral 16 fault.frame.eip.toNat ++ [chr ','] ++
          (ascii " esp=0x" ++ (numeral 16 fault.esp.toNat ++ [chr ','] ++
            (ascii " ebp=0x" ++ (numeral 16 fault.ebp.toNat ++ [chr ']'] ++ ascii "\n"))))))))) := by
    funext fault
    simp only [List.append_assoc]
    rfl
  rw [text]
  exact whole.map (f := fun told =>
    (told.2.1, told.2.2.2.1, told.2.2.2.2.2.1, told.2.2.2.2.2.2.2.1, told.2.2.2.2.2.2.2.2.2.1))
    fun _ => rfl

theorem text_congr {fault other : ReportedFault} (same : other.told = fault.told) :
    other.text = fault.text := by
  obtain ⟨address, code, eip, esp, ebp⟩ : other.faultAddress = fault.faultAddress ∧
      other.frame.errorCode = fault.frame.errorCode ∧ other.frame.eip = fault.frame.eip ∧
        other.esp = fault.esp ∧ other.ebp = fault.ebp := by
    simpa [told] using same
  simp only [text, numbersText, address, code, eip, esp, ebp]

/-- The marks behind the first one. -/
theorem count_mark (fault : ReportedFault) :
    (fault.numbersText ++ (flagTexts fault.frame.errorCode).flatten).count (chr ':') = 1 := by
  have noDigit : chr ':' ∉ hexChars := by decide
  have number (word : Word) : (numeral 16 word.toNat).count (chr ':') = 0 :=
    List.count_eq_zero.mpr (not_mem_hex noDigit word.toNat)
  have literals : (ascii " 0x").count (chr ':') = 0 ∧ (ascii ", error code: 0x").count (chr ':') = 1 ∧
      (ascii " [eip=0x").count (chr ':') = 0 ∧ (ascii ", esp=0x").count (chr ':') = 0 ∧
        (ascii ", ebp=0x").count (chr ':') = 0 ∧ (ascii "]\n").count (chr ':') = 0 := by decide
  have flags : (flagTexts fault.frame.errorCode).flatten.count (chr ':') = 0 := by
    refine List.count_eq_zero.mpr fun inside => ?_
    obtain ⟨chars, member, inside⟩ := List.mem_flatten.mp inside
    exact flagLines_unmarked chars ((flagTexts_sublist fault.frame.errorCode).subset member) inside
  simp only [numbersText, List.count_append, number, literals, flags]

/-- **A report at the end of a report is that report.** -/
theorem told_eq_of_suffix {fault other : ReportedFault} (suffix : other.text <:+ fault.text) :
    other.told = fault.told := by
  have absent : chr ':' ∉ start := by decide
  have same := eq_of_suffix_marked absent (other.count_mark.trans fault.count_mark.symm) suffix
  exact (tells_numbersText other fault _ _ same).1

theorem length_text_le (fault : ReportedFault) : fault.text.length ≤ logBufSize - 1 := by
  have numbers := fault.length_numbersText_le
  have before : start.length = 23 := rfl
  have room : logBufSize - 1 = 1023 := rfl
  have lines : flagLines.flatten.length = 152 := rfl
  have flags := (flagTexts_sublist fault.frame.errorCode).flatten.length_le
  rw [text, List.length_append, List.length_cons, List.length_append, before, room]
  omega

/-! ## The end of the log -/

section Handler

variable {fault : ReportedFault} (stray : fault.Stray)
include stray

/-- A stray fault changes nothing. -/
theorem Stray.pageFaultHandler (k : Kernel) :
    pageFaultHandler fault.faultAddress fault.frame k = .error k := by
  obtain ⟨outside, rejected⟩ := stray
  rw [Recovers, InHeap, not_or] at rejected
  rw [InGuardPage] at outside
  simp only [Memory.pageFaultHandler, outside, rejected.1, rejected.2, if_false]
  rfl

/-- Its report is printed. -/
theorem Stray.puts_calls (sites : List Byte → Site) :
    ∃ texts, List.Forall₂ Puts (fault.calls sites) texts ∧ texts.flatten = fault.text := by
  obtain ⟨-, rejected⟩ := stray
  rw [Recovers, InHeap, not_or] at rejected
  refine ⟨(start ++ chr ':' :: fault.numbersText) :: flagTexts fault.frame.errorCode, ?_, ?_⟩
  · rw [calls, if_neg rejected.1, if_neg rejected.2]
    exact .cons (fault.puts_faultFmt _) (puts_flagTexts _ sites)
  · rw [List.flatten_cons, text, List.append_assoc, List.cons_append]

end Handler

end ReportedFault

/-- Strings that are all empty. -/
def emptySite : Site where
  text _ := .ofBytes []
  tmp _ := 0
  lastPanikMsg := 0x4000
  placed := by decide
  behind _ := 0

/-- An access behind the identity-mapped memory. -/
def sampleFault : ReportedFault := ⟨0x00500000, zeroStack, 0xC2FFFF00, 0xC2FFFF80⟩

theorem stray_sampleFault : sampleFault.Stray := by
  refine ⟨?_, ?_⟩
  · rw [inGuardPage_iff]
    decide
  · intro recovers
    have paged := demandPaged_iff.mp recovers.demandPaged
    revert paged
    decide

end KernelV.Console
