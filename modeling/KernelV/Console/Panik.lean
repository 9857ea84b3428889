import KernelV.Console.FormatAccess
import KernelV.Console.Rendering
import KernelV.Console.Printk
import KernelV.Console.Terminal
import KernelV.Library.HaltingRuns
import KernelV.Memory.Paging

/-!
# Panics, and all that is printed before them

`panik` keeps its message and then, in test mode, prints it and returns. In normal mode it
writes the message to the log and to the screen, each in its own words, and halts.

The reference for the whole console is a transcript: the bytes that were logged, without
bound, and a terminal without bound. Every run of `printk`, `panik` and the calls around them
is in lockstep with it (`console_inLockstep`): the log holds the last bytes of the transcript,
the screen shows the last lines, and the console halts when the transcript does. So the
message of the panic that halted the machine is always whole at the end of the log
(`halted_log`).

The memory manager has a `panik` of its own that keeps the format and the arguments. It is in
lockstep with this one (`panik_inLockstep`).
-/

set_option autoImplicit false

namespace KernelV.Console

open Library Memory

/-! ## The state -/

/-- A text in memory. -/
def ascii (chars : String) : List Byte := chars.toList.map chr

/-- `sizeof(panik_state.last_panik_msg)`. -/
abbrev panikMsgSize : ℕ := 256

/-- A string is what comes before the first zero. -/
def CString.ofBytes (bytes : List Byte) : CString where
  bytes := bytes.takeWhile (· ≠ 0)
  noNul := by
    intro member
    simpa using List.mem_takeWhile_imp member

/-- `panik_state_t`. -/
structure PanikRecord where
  panikCalled : Word
  lastPanikMsg : ℕ → Byte
  panikCallCount : Word

/-- The last message, as a string. -/
def PanikRecord.message (state : PanikRecord) : CString :=
  .ofBytes (bytesOf state.lastPanikMsg panikMsgSize)

/-- The variables of `panik.c`, and those of `printk.c`. -/
structure Reporter where
  currentPanikMode : PanikMode
  panikState : PanikRecord
  logger : Logger

/-- What a call finds in memory. No argument of `panik` points into the message that it
writes. -/
structure Site where
  text : Strings
  /-- What the stack holds at `tmp` of `vprintk`. -/
  tmp : ℕ → Byte
  /-- The address of `panik_state.last_panik_msg`. -/
  lastPanikMsg : Word
  placed : lastPanikMsg ≠ 0
  /-- The stack behind the arguments of `pr_emerg`. -/
  behind : VaList

/-- The strings in memory, the last message among them. -/
def Site.strings (site : Site) (message : CString) : Strings :=
  Function.update site.text site.lastPanikMsg message

/-- The arguments of `pr_emerg` in `panik`. -/
def Site.emergArgs (site : Site) : VaList
  | 0 => site.lastPanikMsg
  | i + 1 => site.behind i

/-! ## The code -/

/-- `KERN_EMERG "[TEST PANIK] %s\n"`. -/
def testPanikFmt : List Byte := 1 :: ascii "0[TEST PANIK] %s\n" ++ [0]

/-- `panik` up to `va_end`, with the length of the message. -/
def recordPanik (site : Site) (fmt : List Byte) (args : VaList) (state : PanikRecord) : ℕ × PanikRecord :=
  let out := (myVsnprintf site.text state.lastPanikMsg panikMsgSize fmt args).out
  (out.next,
    { panikCalled := 1
      lastPanikMsg := out.cells
      panikCallCount := state.panikCallCount + 1 })

/-- `ringbuf_write` of a text. -/
def ringbufText (chars : List Byte) (s : Logger) : Logger :=
  ringbufWrite (fun i => chars.getD i 0) chars.length s

/-- `vga_print_string`, on the console below the log. -/
def screenText (str : List Byte) (color : Byte) (s : Logger) : Logger :=
  { s with vga := vgaPrintString str color s.vga }

/-- `panik` behind `cli`, up to the loop. -/
def reportPanik (len : ℕ) (state : PanikRecord) (s : Logger) : Logger :=
  let s := ringbufText (ascii "[PANIK] ") s
  let s := ringbufWrite state.lastPanikMsg len s
  let s := ringbufText (ascii "\n") s
  let s := screenText (ascii "[PANIC] ") (vgaColor .red .white) s
  let s := screenText (bytesOf state.lastPanikMsg panikMsgSize) (vgaColor .black .lightRed) s
  let s := screenText (ascii "\n") whiteOnBlack s
  screenText (ascii "System halted. Press reset to restart.\n") (vgaColor .black .yellow) s

namespace Reporter

/-- `printk`, and the functions that only differ in the level. -/
def printk (site : Site) (fmt : List Byte) (args : VaList) (s : Reporter) : Reporter :=
  { s with logger := (Console.printk (site.strings s.panikState.message) site.tmp fmt args s.logger).2 }

/-- `panik`: it returns, or it has halted. -/
def panik (site : Site) (fmt : List Byte) (args : VaList) (s : Reporter) : Except Reporter Reporter :=
  let recorded := recordPanik site fmt args s.panikState
  let s := { s with panikState := recorded.2 }
  match s.currentPanikMode with
  | .test => .ok (s.printk site testPanikFmt site.emergArgs)
  | .normal => .error { s with logger := reportPanik recorded.1 s.panikState s.logger }

/-- `set_panik_mode`. -/
def setPanikMode (mode : PanikMode) (s : Reporter) : Reporter := { s with currentPanikMode := mode }

/-- `reset_panik_state`. -/
def resetPanikState (s : Reporter) : Reporter :=
  { s with panikState :=
    { panikCalled := 0
      lastPanikMsg := Function.update s.panikState.lastPanikMsg 0 0
      panikCallCount := 0 } }

end Reporter

/-- What the kernel does with its console. -/
inductive ConsoleCall where
  | printkInit
  | printString (str : List Byte) (color : Byte)
  | printk (site : Site) (fmt : List Byte) (args : VaList)
  | panik (site : Site) (fmt : List Byte) (args : VaList)
  | setPanikMode (mode : PanikMode)
  | resetPanikState

namespace Reporter

def perform (s : Reporter) : ConsoleCall → Except Reporter Reporter
  | .printkInit => .ok { s with logger := Console.printkInit s.logger }
  | .printString str color => .ok { s with logger := screenText str color s.logger }
  | .printk site fmt args => .ok (s.printk site fmt args)
  | .panik site fmt args => s.panik site fmt args
  | .setPanikMode mode => .ok (s.setPanikMode mode)
  | .resetPanikState => .ok s.resetPanikState

/-- The variables as they are declared, behind the first `printk_init`. -/
def boot (logBuffer : ℕ → Byte) (vram : ℤ → Byte) (crtc : Crtc) : Reporter where
  currentPanikMode := .normal
  panikState := ⟨0, fun _ => 0, 0⟩
  logger := Console.printkInit ⟨logBuffer, 0, 0, powerOn vram crtc 0 0⟩

end Reporter

/-! ## The transcript -/

/-- A text in one colour. -/
structure Chunk where
  text : List Byte
  color : Byte

/-- Everything that was printed. -/
structure Output where
  logged : List Byte
  terminal : Terminal

namespace Output

def empty : Output := ⟨[], .start⟩

/-- Bytes for the log, and texts for the screen. -/
def say (logged : List Byte) (shown : List Chunk) (out : Output) : Output where
  logged := out.logged ++ logged
  terminal := shown.foldl (fun terminal chunk => terminal.print chunk.text chunk.color) out.terminal

/-- A message with a level or without. -/
def sayLeveled (level : Option LogLevel) (message : List Byte) (out : Output) : Output :=
  match level with
  | none => out.say message [⟨message, whiteOnBlack⟩]
  | some level =>
      out.say (level.text ++ message) [⟨level.text, level.color⟩, ⟨message, whiteOnBlack⟩]

/-- The last words of the console. -/
def sayHalted (message : List Byte) (out : Output) : Output :=
  out.say (ascii "[PANIK] " ++ message ++ ascii "\n")
    [⟨ascii "[PANIC] ", vgaColor .red .white⟩, ⟨message, vgaColor .black .lightRed⟩,
      ⟨ascii "\n", whiteOnBlack⟩,
      ⟨ascii "System halted. Press reset to restart.\n", vgaColor .black .yellow⟩]

end Output

/-- Everything that was printed, and what is left of the panics before. -/
structure Transcript where
  mode : PanikMode
  /-- How many panics there were since the state was reset. -/
  paniks : ℕ
  message : CString
  output : Output

namespace Transcript

def start : Transcript := ⟨.normal, 0, .ofBytes [], .empty⟩

def panik (message : List Byte) (t : Transcript) : Except Transcript Transcript :=
  let t := { t with paniks := t.paniks + 1, message := .ofBytes message }
  match t.mode with
  | .test =>
      let text := ascii "[TEST PANIK] " ++ t.message.bytes ++ ascii "\n"
      .ok { t with output := t.output.sayLeveled (findLoglevel (chr '0')) text }
  | .normal => .error { t with output := t.output.sayHalted message }

def perform (t : Transcript) : ConsoleCall → Except Transcript Transcript
  | .printkInit => .ok { t with output := .empty }
  | .printString str color => .ok { t with output := t.output.say [] [⟨str, color⟩] }
  | .printk site fmt args =>
      let text := textOf (site.strings t.message) logBufSize (actualFmt fmt) args
      .ok { t with output := t.output.sayLeveled (levelOf fmt) text }
  | .panik site fmt args => t.panik (textOf site.text panikMsgSize fmt args)
  | .setPanikMode mode => .ok { t with mode }
  | .resetPanikState => .ok { t with paniks := 0, message := .ofBytes [] }

end Transcript

/-- The log of the console holds the end of what was logged, and its screen shows the end of
the terminal. -/
structure Prints (out : Output) (s : Logger) : Prop where
  bounded : s.ring.Bounded logBufSize
  log : s.log = out.logged.rtake (logBufSize - 1)
  screen : InStep out.terminal s.vga

/-- The console has come as far as the transcript. -/
structure Follows (t : Transcript) (s : Reporter) : Prop where
  mode : s.currentPanikMode = t.mode
  called : s.panikState.panikCalled = if t.paniks = 0 then 0 else 1
  count : s.panikState.panikCallCount = BitVec.ofNat 32 t.paniks
  message : s.panikState.message = t.message
  prints : Prints t.output s.logger

/-! ## Printing -/

theorem bytesOf_getD (chars : List Byte) : bytesOf (fun i => chars.getD i 0) chars.length = chars := by
  apply List.ext_getElem
  · rw [bytesOf, List.length_map, List.length_range]
  · intro i inside inside'
    simp [bytesOf, inside']

/-- Only the text up to its terminator counts. -/
theorem Terminal.print_congr (t : Terminal) {str str' : List Byte}
    (same : str.takeWhile (· ≠ 0) = str'.takeWhile (· ≠ 0)) (color : Byte) :
    t.print str color = t.print str' color := by
  rw [Terminal.print, Terminal.print, same]

namespace Prints

variable {out : Output} {s : Logger}

theorem ringbufWrite (prints : Prints out s) (str : ℕ → Byte) (strLen : ℕ) :
    Prints (out.say (bytesOf str strLen) []) (ringbufWrite str strLen s) where
  bounded := by
    rw [ring_ringbufWrite]
    exact prints.bounded.pushAll _
  log := by
    have before : s.ring.contents logBufSize = out.logged.rtake (logBufSize - 1) := prints.log
    rw [Logger.log, ring_ringbufWrite, CyclicBuffer.contents_pushAll prints.bounded, before,
      CyclicBuffer.rtake_append_rtake]
    rfl
  screen := by
    rw [vga_ringbufWrite]
    exact prints.screen

theorem ringbufText (prints : Prints out s) (chars : List Byte) :
    Prints (out.say chars []) (ringbufText chars s) := by
  have written := prints.ringbufWrite (fun i => chars.getD i 0) chars.length
  rwa [bytesOf_getD] at written

theorem screenText (prints : Prints out s) (str : List Byte) (color : Byte) :
    Prints (out.say [] [⟨str, color⟩]) (screenText str color s) where
  bounded := prints.bounded
  log := by
    rw [Output.say, List.append_nil]
    exact prints.log
  screen := prints.screen.vgaPrintString str color

/-- A buffer on the screen, read as a string. -/
theorem screenBuffer (prints : Prints out s) (buf : ℕ → Byte) {message : List Byte} {size : ℕ}
    (fits : message.length < size) (color : Byte) :
    Prints (out.say [] [⟨message, color⟩])
      (Console.screenText (bytesOf (terminated buf message).cells size) color s) := by
  have shown := prints.screenText (bytesOf (terminated buf message).cells size) color
  have same := out.terminal.print_congr (takeWhile_terminated buf fits) color
  rw [Output.say, List.foldl_cons, same] at shown
  exact shown

theorem printLevel (prints : Prints out s) (level : Option LogLevel) (buf : ℕ → Byte)
    {message : List Byte} (fits : message.length < logBufSize) :
    Prints (out.sayLeveled level message)
      (Console.screenText (bytesOf (terminated buf message).cells logBufSize) whiteOnBlack
        (Console.ringbufWrite (terminated buf message).cells message.length
          (Console.printLevel level s).2)) := by
  cases level with
  | none =>
      have logged := prints.ringbufWrite (terminated buf message).cells message.length
      rw [bytesOf_terminated] at logged
      have shown := logged.screenBuffer buf fits whiteOnBlack
      rwa [Output.say, Output.say, List.append_nil] at shown
  | some level =>
      have leveled := (prints.ringbufText level.text).screenText level.text level.color
      have logged := leveled.ringbufWrite (terminated buf message).cells message.length
      rw [bytesOf_terminated] at logged
      have shown := logged.screenBuffer buf fits whiteOnBlack
      simp only [Output.say, List.append_nil, List.append_assoc] at shown
      exact shown

/-- **`printk` says its prefix and the text of its format.** -/
theorem printk (prints : Prints out s) (text : Strings) (tmp : ℕ → Byte) (fmt : List Byte) (args : VaList) :
    Prints (out.sayLeveled (levelOf fmt) (textOf text logBufSize (actualFmt fmt) args))
      (Console.printk text tmp fmt args s).2 := by
  have fits : (textOf text logBufSize (actualFmt fmt) args).length < logBufSize :=
    Nat.lt_succ_of_le (length_textOf_le text logBufSize _ args)
  have whole := prints.printLevel (levelOf fmt) tmp fits
  rw [Console.printk]
  simp only [vprintk, out_myVsnprintf, next_terminated]
  exact whole

/-- After `printk_init` log and screen are empty. -/
theorem empty_printkInit {s : Logger} (stores : s.vga.StoresOnScreen) : Prints .empty (printkInit s) where
  bounded := ⟨Nat.zero_lt_succ 1023, Nat.zero_lt_succ 1023⟩
  log := by
    simp [Logger.log, CyclicBuffer.contents, CyclicBuffer.length, readCyclic, Logger.ring,
      Console.printkInit, Output.empty]
  screen := ⟨shows_vgaInit _, ⟨Nat.zero_lt_succ 79, fun _ _ _ => rfl⟩, valid_vgaInit stores⟩

theorem printkInit (prints : Prints out s) : Prints .empty (Console.printkInit s) :=
  empty_printkInit prints.screen.valid.stores

/-- **In normal mode log and screen get the message, in different words.** -/
theorem reportPanik (prints : Prints out s) (site : Site) (fmt : List Byte) (args : VaList)
    (state : PanikRecord) :
    Prints (out.sayHalted (textOf site.text panikMsgSize fmt args))
      (reportPanik (recordPanik site fmt args state).1 (recordPanik site fmt args state).2 s) := by
  have fits : (textOf site.text panikMsgSize fmt args).length < panikMsgSize :=
    Nat.lt_succ_of_le (length_textOf_le site.text panikMsgSize fmt args)
  simp only [recordPanik, out_myVsnprintf, next_terminated]
  generalize textOf site.text panikMsgSize fmt args = message at fits ⊢
  have logged := (prints.ringbufText (ascii "[PANIK] ")).ringbufWrite
    (terminated state.lastPanikMsg message).cells message.length
  rw [bytesOf_terminated] at logged
  have line := (logged.ringbufText (ascii "\n")).screenText (ascii "[PANIC] ") (vgaColor .red .white)
  have shown := (line.screenBuffer state.lastPanikMsg fits (vgaColor .black .lightRed)).screenText
    (ascii "\n") whiteOnBlack
  have last := shown.screenText (ascii "System halted. Press reset to restart.\n")
    (vgaColor .black .yellow)
  simp only [Output.say, List.append_nil, List.append_assoc, List.foldl_cons, List.foldl_nil] at last
  simp only [Output.sayHalted, Output.say, List.append_assoc, List.foldl_cons, List.foldl_nil,
    Console.reportPanik]
  exact last

end Prints

/-! ## The message in test mode -/

/-- `[TEST PANIK] %s\n`. -/
def testPanikDirectives : List Directive :=
  (ascii "[TEST PANIK] ").pmap Directive.literal (by decide) ++
    [.specifier [] (chr 's') (by decide), .literal (chr '\n') (by decide)]

/-- Literal characters stand for themselves. -/
theorem renderAll_literals (text : Strings) (chars : List Byte)
    (plain : ∀ c ∈ chars, c ≠ 0 ∧ c ≠ chr '%') (directives : List Directive) (args : VaList) :
    renderAll text (chars.pmap Directive.literal plain ++ directives) args =
      chars ++ renderAll text directives args := by
  induction chars with
  | nil => rfl
  | cons c chars ih =>
      have rest := ih fun d member => plain d (List.mem_cons_of_mem c member)
      exact congrArg (c :: ·) rest

theorem actualFmt_testPanikFmt :
    actualFmt testPanikFmt = formatChars testPanikDirectives ++ 0 :: [] := by decide

/-- **The last message fits into the text of `pr_emerg` as a whole.** -/
theorem textOf_testPanikFmt (site : Site) (message : CString) (short : message.bytes.length ≤ 255) :
    textOf (site.strings message) logBufSize (actualFmt testPanikFmt) site.emergArgs =
      ascii "[TEST PANIK] " ++ message.bytes ++ ascii "\n" := by
  have noPointer : ∀ directive ∈ testPanikDirectives, ¬ directive.IsPointer := by
    intro directive member
    rcases List.mem_append.mp member with literal | last
    · obtain ⟨c, -, rfl⟩ := List.mem_pmap.mp literal
      rintro ⟨digits, complete, same⟩
      cases same
    · simp only [List.mem_cons, List.not_mem_nil, or_false] at last
      rcases last with rfl | rfl
      · exact Padding.not_isPointer_directive ⟨[], by decide, by decide⟩ (by decide) (by decide)
      · rintro ⟨digits, complete, same⟩
        cases same
  have string : stringArg (site.strings message) (site.emergArgs 0) = message.bytes := by
    have own : site.strings message site.lastPanikMsg = message := Function.update_self ..
    rw [stringArg, Site.emergArgs, if_neg site.placed, own]
  have unpadded := Padding.replicate_toPadWidthString ⟨[], by decide, by decide⟩ message.bytes (by omega)
  have rendered : renderAll (site.strings message) testPanikDirectives site.emergArgs =
      ascii "[TEST PANIK] " ++ (message.bytes ++ ascii "\n") := by
    have specifier : renderAll (site.strings message)
        [.specifier [] (chr 's') (by decide), .literal (chr '\n') (by decide)] site.emergArgs =
          Conversion.render (site.strings message) (padCharOf []) (widthOf []) (site.emergArgs 0) .string ++
            ascii "\n" := rfl
    rw [testPanikDirectives, renderAll_literals, specifier, Conversion.render, string, unpadded]
    simp [Padding.pad, Padding.width, decimalValue]
  have fits : (ascii "[TEST PANIK] " ++ (message.bytes ++ ascii "\n")).length ≤ logBufSize - 1 := by
    have header : (ascii "[TEST PANIK] ").length = 13 := rfl
    have newline : (ascii "\n").length = 1 := rfl
    have room : logBufSize - 1 = 1023 := rfl
    rw [List.length_append, List.length_append, header, newline, room]
    omega
  rw [actualFmt_testPanikFmt, textOf, formatted_of_noPointer _ _ _ noPointer, rendered,
    List.take_of_length_le fits, List.append_assoc]

/-! ## Runs -/

/-- A zero at the start ends the message. -/
theorem PanikRecord.message_of_zero {state : PanikRecord} (zero : state.lastPanikMsg 0 = 0) :
    state.message = .ofBytes [] := by
  have first : bytesOf state.lastPanikMsg panikMsgSize =
      0 :: (List.range 255).map fun i => state.lastPanikMsg (i + 1) := by
    rw [bytesOf, List.range_succ_eq_map, List.map_cons, List.map_map, zero]
    rfl
  simp only [PanikRecord.message, CString.ofBytes, first]
  simp

namespace Follows

variable {t : Transcript} {s : Reporter}

/-- The message behind `va_end`. -/
theorem message_recordPanik (site : Site) (fmt : List Byte) (args : VaList) (state : PanikRecord) :
    (recordPanik site fmt args state).2.message = .ofBytes (textOf site.text panikMsgSize fmt args) := by
  have fits : (textOf site.text panikMsgSize fmt args).length < panikMsgSize :=
    Nat.lt_succ_of_le (length_textOf_le site.text panikMsgSize fmt args)
  have same := takeWhile_terminated state.lastPanikMsg fits
  simp only [PanikRecord.message, recordPanik, out_myVsnprintf, CString.ofBytes, same]

/-- What is recorded before the mode is looked at. -/
theorem recordPanik (follows : Follows t s) (site : Site) (fmt : List Byte) (args : VaList) :
    Follows
      { t with paniks := t.paniks + 1, message := .ofBytes (textOf site.text panikMsgSize fmt args) }
      { s with panikState := (recordPanik site fmt args s.panikState).2 } where
  mode := follows.mode
  called := by
    rw [if_neg (Nat.succ_ne_zero t.paniks)]
    rfl
  count := by
    change s.panikState.panikCallCount + 1 = _
    rw [follows.count, BitVec.ofNat_add]
    rfl
  message := message_recordPanik site fmt args s.panikState
  prints := follows.prints

/-- `printk` in step. -/
theorem printk (follows : Follows t s) (site : Site) (fmt : List Byte) (args : VaList) :
    Follows
      { t with
        output := t.output.sayLeveled (levelOf fmt)
          (textOf (site.strings t.message) logBufSize (actualFmt fmt) args) }
      (s.printk site fmt args) where
  mode := follows.mode
  called := follows.called
  count := follows.count
  message := follows.message
  prints := by
    rw [← follows.message]
    exact follows.prints.printk (site.strings s.panikState.message) site.tmp fmt args

/-- **`panik` returns or halts in step.** -/
theorem panik (follows : Follows t s) (site : Site) (fmt : List Byte) (args : VaList) :
    InLockstep Follows (t.panik (textOf site.text panikMsgSize fmt args)) (s.panik site fmt args) := by
  have recorded := follows.recordPanik site fmt args
  have short := length_textOf_le site.text panikMsgSize fmt args
  have called := follows.mode
  rw [Transcript.panik, Reporter.panik]
  dsimp only
  rw [called]
  cases mode : t.mode with
  | test =>
      have text := textOf_testPanikFmt site (.ofBytes (textOf site.text panikMsgSize fmt args))
        ((List.takeWhile_sublist _).length_le.trans short)
      have printed := recorded.printk site testPanikFmt site.emergArgs
      rw [text] at printed
      simp only [called, mode] at printed
      exact .goesOn printed
  | normal =>
      refine .halted ⟨rfl, recorded.called, recorded.count, recorded.message, ?_⟩
      exact follows.prints.reportPanik site fmt args s.panikState

/-- **Each call of the console is one of the transcript.** -/
theorem perform (follows : Follows t s) (call : ConsoleCall) :
    InLockstep Follows (t.perform call) (s.perform call) := by
  cases call with
  | printkInit =>
      exact .goesOn { follows with prints := follows.prints.printkInit }
  | printString str color =>
      exact .goesOn { follows with prints := follows.prints.screenText str color }
  | printk site fmt args => exact .goesOn (follows.printk site fmt args)
  | panik site fmt args => exact follows.panik site fmt args
  | setPanikMode mode => exact .goesOn { follows with mode := rfl }
  | resetPanikState =>
      have message : s.resetPanikState.panikState.message = .ofBytes [] :=
        PanikRecord.message_of_zero (by simp [Reporter.resetPanikState])
      exact .goesOn ⟨follows.mode, rfl, rfl, message, follows.prints⟩

end Follows

theorem follows_boot (logBuffer : ℕ → Byte) (vram : ℤ → Byte) (crtc : Crtc) :
    Follows .start (.boot logBuffer vram crtc) where
  mode := rfl
  called := rfl
  count := rfl
  message := PanikRecord.message_of_zero rfl
  prints := Prints.empty_printkInit fun _ member => absurd member List.not_mem_nil

/-- **The console is in lockstep with its transcript**, from `printk_init` on and through any
calls: the log holds the last bytes of all that was logged, the screen shows the last lines of
all that was printed, and the machine halts in the first panic in normal mode. -/
theorem console_inLockstep (logBuffer : ℕ → Byte) (vram : ℤ → Byte) (crtc : Crtc)
    (calls : List ConsoleCall) :
    InLockstep Follows (calls.foldlM Transcript.perform .start)
      (calls.foldlM Reporter.perform (.boot logBuffer vram crtc)) :=
  InLockstep.foldlM (fun _ _ call follows => follows.perform call)
    (follows_boot logBuffer vram crtc) calls

/-! ## The panic that halts the machine -/

namespace ConsoleCall

/-- The mode behind a call. -/
def nextMode (mode : PanikMode) : ConsoleCall → PanikMode
  | setPanikMode next => next
  | _ => mode

/-- The mode behind some calls. -/
def modeAfter (calls : List ConsoleCall) : PanikMode := calls.foldl nextMode .normal

/-- A panic comes in normal mode. -/
def PanicsInNormalMode (calls : List ConsoleCall) : Prop :=
  ∃ before site fmt args after,
    calls = before ++ panik site fmt args :: after ∧ modeAfter before = .normal

end ConsoleCall

namespace Reporter

/-- A call that goes on. -/
theorem mode_perform {s next : Reporter} {call : ConsoleCall} (goesOn : s.perform call = .ok next) :
    next.currentPanikMode = call.nextMode s.currentPanikMode := by
  cases call with
  | panik site fmt args =>
      simp only [perform, Reporter.panik] at goesOn
      split at goesOn
      case h_1 =>
          cases goesOn
          rfl
      case h_2 => cases goesOn
  | printkInit | printString | printk | setPanikMode | resetPanikState =>
      cases goesOn
      rfl

theorem mode_foldlM {s last : Reporter} {calls : List ConsoleCall}
    (goesOn : calls.foldlM perform s = .ok last) :
    last.currentPanikMode = calls.foldl ConsoleCall.nextMode s.currentPanikMode := by
  induction calls generalizing s with
  | nil =>
      cases goesOn
      rfl
  | cons call calls ih =>
      rw [List.foldlM_cons] at goesOn
      cases first : s.perform call with
      | error stop =>
          rw [first] at goesOn
          cases goesOn
      | ok next =>
          rw [first] at goesOn
          rw [List.foldl_cons, ← mode_perform first]
          exact ih goesOn

/-- Only a panic in normal mode halts. -/
theorem perform_eq_error_iff {s : Reporter} {call : ConsoleCall} :
    (∃ last, s.perform call = .error last) ↔
      (∃ site fmt args, call = .panik site fmt args) ∧ s.currentPanikMode = .normal := by
  cases call with
  | panik site fmt args =>
      simp only [perform, Reporter.panik]
      cases s.currentPanikMode with
      | normal => exact ⟨fun _ => ⟨⟨site, fmt, args, rfl⟩, rfl⟩, fun _ => ⟨_, rfl⟩⟩
      | test => simp
  | printkInit | printString | printk | setPanikMode | resetPanikState => simp [perform]

/-- A run that goes on has no panic in normal mode. -/
theorem not_panicsInNormalMode {s last : Reporter} (normal : s.currentPanikMode = .normal)
    {calls : List ConsoleCall} (goesOn : calls.foldlM perform s = .ok last) :
    ¬ ConsoleCall.PanicsInNormalMode calls := by
  rintro ⟨before, site, fmt, args, after, rfl, mode⟩
  rw [List.foldlM_append] at goesOn
  cases passed : before.foldlM perform s with
  | error stop =>
      rw [passed] at goesOn
      cases goesOn
  | ok mid =>
      have midMode : mid.currentPanikMode = .normal := by
        rw [mode_foldlM passed, normal]
        exact mode
      obtain ⟨stop, halts⟩ := perform_eq_error_iff.mpr ⟨⟨site, fmt, args, rfl⟩, midMode⟩
      rw [passed] at goesOn
      change List.foldlM perform mid (.panik site fmt args :: after) = .ok last at goesOn
      rw [List.foldlM_cons, halts] at goesOn
      cases goesOn

/-- A run that halts does so in its first panic in normal mode. -/
theorem exists_panik_of_error {s last : Reporter} (normal : s.currentPanikMode = .normal)
    {calls : List ConsoleCall} (halts : calls.foldlM perform s = .error last) :
    ∃ before site fmt args after mid, calls = before ++ .panik site fmt args :: after ∧
      ConsoleCall.modeAfter before = .normal ∧ before.foldlM perform s = .ok mid ∧
        mid.panik site fmt args = .error last := by
  obtain ⟨before, call, after, mid, rfl, passed, ends⟩ := foldlM_eq_error_iff.mp halts
  obtain ⟨⟨site, fmt, args, rfl⟩, mode⟩ := perform_eq_error_iff.mp ⟨last, ends⟩
  refine ⟨before, site, fmt, args, after, mid, rfl, ?_, passed, ends⟩
  rw [← mode, mode_foldlM passed, normal]
  rfl

end Reporter

/-- What comes last in a list is among its last elements. -/
theorem suffix_rtake_append (before last : List Byte) {n : ℕ} (fits : last.length ≤ n) :
    last <:+ (before ++ last).rtake n := by
  have cut : before.length + last.length - n ≤ before.length := by omega
  rw [List.rtake, List.length_append, List.drop_append_of_le_length cut]
  exact List.suffix_append _ _

/-- The log ends with the message of the panic. -/
theorem Follows.log_panik {t : Transcript} {s last : Reporter} (follows : Follows t s) (site : Site)
    (fmt : List Byte) (args : VaList) (halts : s.panik site fmt args = .error last) :
    ascii "[PANIK] " ++ textOf site.text panikMsgSize fmt args ++ ascii "\n" <:+ last.logger.log := by
  have step := follows.panik site fmt args
  have short := length_textOf_le site.text panikMsgSize fmt args
  have stops : s.perform (.panik site fmt args) = .error last := halts
  have normal := Reporter.perform_eq_error_iff.mp ⟨last, stops⟩
  have mode : t.mode = .normal := follows.mode.symm.trans normal.2
  rw [halts, Transcript.panik] at step
  dsimp only at step
  rw [mode] at step
  cases step with
  | halted related =>
      have fits : (ascii "[PANIK] " ++ textOf site.text panikMsgSize fmt args ++ ascii "\n").length ≤
          logBufSize - 1 := by
        have header : (ascii "[PANIK] ").length = 8 := rfl
        have newline : (ascii "\n").length = 1 := rfl
        have room : logBufSize - 1 = 1023 := rfl
        have size : panikMsgSize = 256 := rfl
        rw [List.length_append, List.length_append, header, newline, room]
        omega
      rw [related.prints.log]
      exact suffix_rtake_append t.output.logged _ fits

/-- **The machine halts exactly if a panic comes in normal mode, and then the message of that
panic is whole at the end of the log.** -/
theorem halted_log (logBuffer : ℕ → Byte) (vram : ℤ → Byte) (crtc : Crtc) (calls : List ConsoleCall) :
    ((∃ last, calls.foldlM Reporter.perform (.boot logBuffer vram crtc) = .error last) ↔
      ConsoleCall.PanicsInNormalMode calls) ∧
    ∀ last, calls.foldlM Reporter.perform (.boot logBuffer vram crtc) = .error last →
      ∃ before site fmt args after, calls = before ++ .panik site fmt args :: after ∧
        ConsoleCall.modeAfter before = .normal ∧ ¬ ConsoleCall.PanicsInNormalMode before ∧
          ascii "[PANIK] " ++ textOf site.text panikMsgSize fmt args ++ ascii "\n" <:+ last.logger.log := by
  have run := InLockstep.foldlM (fun _ _ call follows => follows.perform call)
    (follows_boot logBuffer vram crtc)
  refine ⟨⟨?_, ?_⟩, ?_⟩
  · rintro ⟨last, halts⟩
    obtain ⟨before, site, fmt, args, after, -, split, mode, -⟩ := Reporter.exists_panik_of_error rfl halts
    exact ⟨before, site, fmt, args, after, split, mode⟩
  · intro panics
    cases ends : calls.foldlM Reporter.perform (.boot logBuffer vram crtc) with
    | error last => exact ⟨last, rfl⟩
    | ok last => exact absurd panics (Reporter.not_panicsInNormalMode rfl ends)
  · intro last halts
    obtain ⟨before, site, fmt, args, after, mid, split, mode, passed, ends⟩ :=
      Reporter.exists_panik_of_error rfl halts
    have reached := run before
    rw [passed] at reached
    revert reached
    generalize before.foldlM Transcript.perform .start = result
    intro reached
    cases reached with
    | goesOn follows =>
        exact ⟨before, site, fmt, args, after, split, mode, Reporter.not_panicsInNormalMode rfl passed,
          follows.log_panik site fmt args ends⟩

/-! ## The panics of the memory manager -/

/-- The memory manager keeps the format and the arguments where `panik` keeps the text. -/
structure Records (state : PanikState) (s : Reporter) : Prop where
  mode : s.currentPanikMode = state.mode
  called : s.panikState.panikCalled = if state.panikCalled then 1 else 0
  count : s.panikState.panikCallCount = BitVec.ofNat 32 state.panikCallCount
  message : ∀ format arguments, state.lastPanikMsg = some (format, arguments) →
    ∃ text given, (∀ i (inside : i < arguments.length), given i = arguments[i]) ∧
      s.panikState.message = .ofBytes (textOf text panikMsgSize (ascii format ++ [0]) given)

/-- **The `panik` that the memory manager calls is the one of the console**: both go on or both
halt, and they record the same. -/
theorem panik_inLockstep {k : Kernel} {s : Reporter} (records : Records k.panikState s) (site : Site)
    (format : String) (arguments : List Word) (args : VaList)
    (passed : ∀ i (inside : i < arguments.length), args i = arguments[i]) :
    InLockstep (fun k s => Records k.panikState s) (Memory.panik format arguments k)
      (s.panik site (ascii format ++ [0]) args) := by
  have count : s.panikState.panikCallCount + 1 = BitVec.ofNat 32 (k.panikState.panikCallCount + 1) := by
    rw [records.count, BitVec.ofNat_add]
    rfl
  have message := Follows.message_recordPanik site (ascii format ++ [0]) args s.panikState
  have recorded (format' : String) (arguments' : List Word)
      (last : some (format, arguments) = some (format', arguments')) :
      ∃ text given, (∀ i (inside : i < arguments'.length), given i = arguments'[i]) ∧
        (recordPanik site (ascii format ++ [0]) args s.panikState).2.message =
          .ofBytes (textOf text panikMsgSize (ascii format' ++ [0]) given) := by
    cases last
    exact ⟨site.text, args, passed, message⟩
  have mode := records.mode
  rw [Memory.panik, Reporter.panik]
  dsimp only
  rw [mode]
  cases k.panikState.mode with
  | test => exact .goesOn ⟨rfl, rfl, count, recorded⟩
  | normal => exact .halted ⟨rfl, rfl, count, recorded⟩

end KernelV.Console
