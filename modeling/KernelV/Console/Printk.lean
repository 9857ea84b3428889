import KernelV.Console.Format
import KernelV.Console.RingBuffer

/-!
# Messages to the log and to the screen

`printk` formats a message into a buffer and hands it on twice: to the log, by its length, and
to the screen, as a string. Before the message comes a prefix if the format names a level.

The two differ when the message holds a zero, where a string ends and a buffer does not. Only
`%c` can write one. `printk_agrees_iff`: log and screen get the same characters if and only if
every `%c` with a zero argument lies behind the end of the buffer.
-/

set_option autoImplicit false

namespace KernelV.Console

open Library Memory

/-! ## Levels -/

/-- `struct loglevel`. -/
structure LogLevel where
  levelChar : Byte
  name : List Byte
  color : Byte

def logLevel (levelChar : Char) (name : String) (bg fg : VgaColor) : LogLevel :=
  ⟨chr levelChar, name.toList.map chr, vgaColor bg fg⟩

def loglevels : List LogLevel :=
  [logLevel '0' "EMERG" .red .white,
    logLevel '1' "ALERT" .black .lightRed,
    logLevel '2' "CRIT" .black .lightMagenta,
    logLevel '3' "ERR" .black .red,
    logLevel '4' "WARN" .black .yellow,
    logLevel '5' "NOTICE" .black .lightCyan,
    logLevel '6' "INFO" .black .white,
    logLevel '7' "DEBUG" .black .darkGrey]

/-- `find_loglevel`, with the level in place of its index. -/
def findLoglevel (levelChar : Byte) : Option LogLevel :=
  loglevels.find? fun level => level.levelChar = levelChar

/-- `level_prefix` up to its terminator. -/
def LogLevel.text (level : LogLevel) : List Byte := [chr '['] ++ level.name ++ [chr ']', chr ' ']

/-! ## Printing -/

/-- `vprintk`, with what the stack holds at `tmp`. -/
def vprintk (text : Strings) (tmp : ℕ → Byte) (fmt : List Byte) (args : VaList) (s : Logger) :
    ℕ × Logger :=
  let out := (myVsnprintf text tmp logBufSize fmt args).out
  let len := out.next
  let s := ringbufWrite out.cells len s
  (len, { s with vga := vgaPrintString (bytesOf out.cells logBufSize) whiteOnBlack s.vga })

/-- `fmt[0] == '\001' && fmt[1] >= '0' && fmt[1] <= '7'`. -/
def isLeveled (fmt : List Byte) : Bool :=
  peek fmt = 1 && chr '0' ≤ peek fmt.tail && peek fmt.tail ≤ chr '7'

/-- The level a format names. -/
def levelOf (fmt : List Byte) : Option LogLevel :=
  if isLeveled fmt then findLoglevel (peek fmt.tail) else none

/-- `actual_fmt`. -/
def actualFmt (fmt : List Byte) : List Byte := if isLeveled fmt then fmt.tail.tail else fmt

/-- The part of `printk` that writes the prefix. -/
def printLevel (level : Option LogLevel) (s : Logger) : ℕ × Logger :=
  match level with
  | none => (0, s)
  | some level =>
      let s := ringbufWrite (fun i => level.text.getD i 0) level.text.length s
      (level.text.length, { s with vga := vgaPrintString level.text level.color s.vga })

/-- `printk`. -/
def printk (text : Strings) (tmp : ℕ → Byte) (fmt : List Byte) (args : VaList) (s : Logger) :
    ℕ × Logger :=
  let leveled := printLevel (levelOf fmt) s
  let message := vprintk text tmp (actualFmt fmt) args leveled.2
  (leveled.1 + message.1, message.2)

/-- The characters of the prefix. -/
def levelText (fmt : List Byte) : List Byte := ((levelOf fmt).map LogLevel.text).getD []

/-- Log and screen get the same characters, the prefix first, and their number is returned. -/
def Agrees (text : Strings) (tmp : ℕ → Byte) (fmt : List Byte) (args : VaList) (s : Logger) : Prop :=
  ∃ message,
    (printk text tmp fmt args s).2.ring = s.ring.pushAll logBufSize (levelText fmt ++ message) ∧
      (printk text tmp fmt args s).2.vga.shown = s.vga.shown ++ (levelText fmt ++ message) ∧
      (printk text tmp fmt args s).1 = (levelText fmt ++ message).length

/-! ## The screen -/

/-- The characters that go to the screen. -/
theorem shown_printChar (c color : Byte) (s : Vga) : (printChar c color s).shown = s.shown ++ [c] := by
  have advanced : (advanceCursor c color { s with shown := s.shown ++ [c] }).shown = s.shown ++ [c] := by
    unfold advanceCursor
    dsimp only
    split
    case isTrue => rfl
    case isFalse =>
        split
        case isTrue => rfl
        case isFalse => rfl
  rw [printChar, vgaMoveCursor_shown, scrollBelow]
  split
  case isTrue =>
      dsimp only
      rw [(vgaScrollUp_paints _).shown]
      exact advanced
  case isFalse => exact advanced

/-- **The screen gets a string up to its terminator.** -/
theorem shown_vgaPrintString (str : List Byte) (color : Byte) (s : Vga) :
    (vgaPrintString str color s).shown = s.shown ++ str.takeWhile (· ≠ 0) := by
  induction str generalizing s with
  | nil => rw [List.takeWhile_nil, List.append_nil, vgaPrintString]
  | cons c str ih =>
      rw [vgaPrintString]
      by_cases terminator : c = 0
      · rw [if_pos terminator, List.takeWhile_cons_of_neg (by simpa using terminator), List.append_nil]
      · rw [if_neg terminator, List.takeWhile_cons_of_pos (by simpa using terminator), ih,
          shown_printChar, List.append_assoc, List.singleton_append]

/-! ## The message -/

/-- The message, read by its length. -/
theorem bytesOf_terminated (tmp : ℕ → Byte) (message : List Byte) :
    bytesOf (terminated tmp message).cells message.length = message := by
  have written := contents_terminated tmp message
  rwa [Writer.contents, next_terminated, ← bytesOf] at written

/-- The message, read as a string. -/
theorem takeWhile_terminated (tmp : ℕ → Byte) {message : List Byte} {size : ℕ}
    (fits : message.length < size) :
    (bytesOf (terminated tmp message).cells size).takeWhile (· ≠ 0) = message.takeWhile (· ≠ 0) := by
  have zero : (terminated tmp message).cells message.length = 0 := by
    rw [← next_terminated tmp message]
    exact Function.update_self ..
  obtain ⟨behind, rfl⟩ := Nat.exists_eq_add_of_lt fits
  have split : bytesOf (terminated tmp message).cells (message.length + behind + 1) =
      message ++ 0 :: (List.range behind).map
        (fun i => (terminated tmp message).cells (message.length + (i + 1))) := by
    rw [bytesOf, Nat.add_assoc, List.range_add, List.map_append, ← bytesOf, bytesOf_terminated,
      List.range_succ_eq_map, List.map_cons, List.map_cons, Nat.add_zero, zero, List.map_map,
      List.map_map]
    rfl
  rw [split, List.takeWhile_append]
  split
  case isTrue whole =>
      rw [List.takeWhile_cons_of_neg (by simp), List.append_nil]
      exact ((List.takeWhile_sublist _).eq_of_length whole).symm
  case isFalse => rfl

/-- A message without a zero is a string as a whole. -/
theorem takeWhile_eq_self_iff (message : List Byte) :
    message.takeWhile (· ≠ 0) = message ↔ 0 ∉ message := by
  rw [List.takeWhile_eq_self_iff]
  constructor
  · intro nonzero member
    simpa using nonzero 0 member
  · intro absent c member
    have : c ≠ 0 := fun same => absent (same ▸ member)
    simpa using this

/-! ## Log, screen and return value -/

theorem ring_withVga (vga : Vga) (s : Logger) : Logger.ring { s with vga := vga } = s.ring := rfl

/-- What a part of `printk` has done: what went to the log, what went to the screen, and how
many characters were counted. -/
structure Printed (s : Logger) (logged shown : List Byte) (result : ℕ × Logger) : Prop where
  ring : result.2.ring = s.ring.pushAll logBufSize logged
  shown : result.2.vga.shown = s.vga.shown ++ shown
  count : result.1 = logged.length

/-- No level has a zero in its name. -/
theorem noNul_levelText (fmt : List Byte) : 0 ∉ levelText fmt := by
  have names : ∀ level ∈ loglevels, 0 ∉ level.text := by decide
  unfold levelText levelOf
  split
  case isTrue =>
      cases found : findLoglevel (peek fmt.tail) with
      | none => exact List.not_mem_nil
      | some level => exact names level (List.mem_of_find?_eq_some found)
  case isFalse => exact List.not_mem_nil

/-- **The prefix goes to the log and to the screen.** -/
theorem printed_printLevel (fmt : List Byte) (s : Logger) :
    Printed s (levelText fmt) (levelText fmt) (printLevel (levelOf fmt) s) := by
  have noNul := noNul_levelText fmt
  unfold levelText at noNul ⊢
  generalize levelOf fmt = found at noNul ⊢
  cases found with
  | none => exact ⟨rfl, (List.append_nil _).symm, rfl⟩
  | some level =>
      have bytes : bytesOf (fun i => level.text.getD i 0) level.text.length = level.text := by
        apply List.ext_getElem
        · rw [bytesOf, List.length_map, List.length_range]
        · intro i inside inside'
          simp [bytesOf, inside']
      refine ⟨?_, ?_, rfl⟩
      · simp only [printLevel, ring_withVga, ring_ringbufWrite, bytes]
        rfl
      · simp only [printLevel, shown_vgaPrintString, vga_ringbufWrite]
        rw [(takeWhile_eq_self_iff level.text).mpr noNul]
        rfl

/-- **The message goes to the log as it is, and to the screen up to its first zero.** -/
theorem printed_vprintk (text : Strings) (tmp : ℕ → Byte) (directives : List Directive)
    (rest : List Byte) (args : VaList) (s : Logger) :
    Printed s (emitAll text 1023 directives args)
      ((emitAll text 1023 directives args).takeWhile (· ≠ 0))
      (vprintk text tmp (formatChars directives ++ 0 :: rest) args s) := by
  have out := myVsnprintf_directives text tmp logBufSize directives rest args
  have fits : (emitAll text 1023 directives args).length < logBufSize :=
    Nat.lt_succ_of_le (length_emitAll_le text 1023 directives args)
  generalize emitAll text 1023 directives args = message at out fits ⊢
  refine ⟨?_, ?_, ?_⟩
  · simp only [vprintk, out, next_terminated, ring_withVga, ring_ringbufWrite, bytesOf_terminated]
  · simp only [vprintk, out, shown_vgaPrintString, vga_ringbufWrite, takeWhile_terminated tmp fits]
  · simp only [vprintk, out, next_terminated]

/-- **Log and screen agree as long as no zero is written.** -/
theorem agrees_iff_noNul (text : Strings) (tmp : ℕ → Byte) {fmt : List Byte}
    (directives : List Directive) (rest : List Byte)
    (message : actualFmt fmt = formatChars directives ++ 0 :: rest) (args : VaList) (s : Logger) :
    Agrees text tmp fmt args s ↔ 0 ∉ emitAll text 1023 directives args := by
  have level := printed_printLevel fmt s
  have body := printed_vprintk text tmp directives rest args (printLevel (levelOf fmt) s).2
  rw [← message] at body
  rw [← takeWhile_eq_self_iff]
  constructor
  · rintro ⟨characters, -, shown, count⟩
    have same : (emitAll text 1023 directives args).takeWhile (· ≠ 0) = characters := by
      have screen : (printk text tmp fmt args s).2.vga.shown = _ := body.shown
      rw [screen, level.shown, List.append_assoc] at shown
      exact List.append_cancel_left (List.append_cancel_left shown)
    have length : (emitAll text 1023 directives args).length = characters.length := by
      have total : (printk text tmp fmt args s).1 = _ := congrArg₂ (· + ·) level.count body.count
      rw [total, List.length_append] at count
      exact Nat.add_left_cancel count
    exact (List.takeWhile_sublist _).eq_of_length (by rw [same, length])
  · intro whole
    refine ⟨emitAll text 1023 directives args, ?_, ?_, ?_⟩
    · exact body.ring.trans (by rw [level.ring, CyclicBuffer.pushAll_append])
    · exact body.shown.trans (by rw [whole, level.shown, List.append_assoc])
    · rw [List.length_append]
      exact congrArg₂ (· + ·) level.count body.count

/-! ## Where zeros come from -/

theorem tmpDigits_nonzero {digit : Word → Byte} (nonzero : ∀ val, digit val ≠ 0) (quotient : Word → Word)
    (room : ℕ) (val : Word) : 0 ∉ tmpDigits digit quotient room val := by
  induction room generalizing val with
  | zero => exact List.not_mem_nil
  | succ room ih =>
      rw [tmpDigits, List.mem_cons, not_or]
      refine ⟨(nonzero val).symm, ?_⟩
      split
      case isTrue => exact List.not_mem_nil
      case isFalse => exact ih _

/-- A character code between 1 and 255 keeps its value in a byte. -/
theorem setWidth_ne_zero {code : Word} (positive : 0 < code.toNat) (small : code.toNat < 256) :
    code.setWidth 8 ≠ (0 : Byte) := by
  intro zero
  have value := congrArg BitVec.toNat zero
  rw [BitVec.toNat_setWidth, Nat.mod_eq_of_lt small] at value
  exact positive.ne' value

/-- Codes a little above a base character. -/
theorem setWidth_add_ne_zero {base digit : Word} {radix : ℕ} (bound : digit.toNat < radix)
    (positive : 0 < base.toNat) (small : base.toNat + radix ≤ 256) :
    (base + digit).setWidth 8 ≠ (0 : Byte) := by
  have code : (base + digit).toNat = base.toNat + digit.toNat := BitVec.toNat_add_of_lt (by omega)
  exact setWidth_ne_zero (by omega) (by omega)

theorem toNat_umod_lt (val : Word) {radix : Word} (positive : 0 < radix.toNat) :
    (val % radix).toNat < radix.toNat := by
  rw [BitVec.toNat_umod]
  exact Nat.mod_lt _ positive

theorem noNul_decimalTmp (num : Word) : 0 ∉ decimalTmp num := by
  have digits (val : Word) : (0x30 + val % 10).setWidth 8 ≠ (0 : Byte) :=
    setWidth_add_ne_zero (toNat_umod_lt val (by decide)) (by decide) (by decide)
  have noNul := tmpDigits_nonzero digits (· / 10) 12 (if num.slt 0 then -num else num)
  unfold decimalTmp
  dsimp only
  generalize tmpDigits _ _ 12 _ = tmp at noNul ⊢
  split
  case isTrue =>
      rw [List.mem_append, not_or]
      exact ⟨noNul, by decide⟩
  case isFalse => exact noNul

/-- Digits of negative numbers come out below `'0'`, but still as characters. -/
theorem noNul_unsignedTmp (num : Word) : 0 ∉ unsignedTmp num := by
  refine tmpDigits_nonzero (fun num => ?_) _ _ _
  have remainder := BitVec.toInt_srem num 10
  rw [show (10 : Word).toInt = 10 by decide] at remainder
  have upper := Int.tmod_lt_of_pos num.toInt (show (0 : ℤ) < 10 by decide)
  have lower := Int.lt_tmod_of_pos num.toInt (show (0 : ℤ) < 10 by decide)
  have value := BitVec.toInt_eq_toNat_cond (num.srem 10)
  have code : (0x30 + num.srem 10).toNat = (0x30 + (num.srem 10).toNat) % 2 ^ 32 := BitVec.toNat_add ..
  apply setWidth_ne_zero
  · split at value <;> omega
  · split at value <;> omega

theorem noNul_hexTmp (room : ℕ) (num : Word) : 0 ∉ hexTmp room num := by
  unfold hexTmp
  split
  case isTrue => decide
  case isFalse =>
      refine tmpDigits_nonzero (fun num => ?_) _ _ _
      have bound := toNat_umod_lt num (show 0 < (16 : Word).toNat by decide)
      unfold hexDigit
      dsimp only
      split
      case isTrue => exact setWidth_add_ne_zero bound (by decide) (by decide)
      case isFalse =>
          have shift : 0x61 + num % 16 - 10 = 0x57 + num % 16 := by bv_omega
          rw [shift]
          exact setWidth_add_ne_zero bound (by decide) (by decide)

/-- **Only `%c` writes a zero.** -/
theorem Conversion.noNul_render (text : Strings) {padChar : Byte} (padding : padChar ≠ 0)
    (padWidth arg : Word) {conversion : Conversion} (notChar : conversion ≠ .char)
    (known : conversion ≠ .unknown 0) : 0 ∉ conversion.render text padChar padWidth arg := by
  have pad (count : ℕ) {chars : List Byte} (noNul : 0 ∉ chars) :
      0 ∉ List.replicate count padChar ++ chars := by
    rw [List.mem_append, not_or]
    exact ⟨fun member => padding (List.eq_of_mem_replicate member).symm, noNul⟩
  cases conversion with
  | string =>
      apply pad
      unfold stringArg
      split
      case isTrue => exact nullText.noNul
      case isFalse => exact (text arg).noNul
  | char => exact absurd rfl notChar
  | decimal => exact pad _ (fun member => noNul_decimalTmp arg (List.mem_reverse.mp member))
  | unsigned => exact pad _ (fun member => noNul_unsignedTmp arg (List.mem_reverse.mp member))
  | hex => exact pad _ (fun member => noNul_hexTmp 12 arg (List.mem_reverse.mp member))
  | pointer =>
      rw [Conversion.render, List.mem_append, not_or]
      exact ⟨by decide, fun member => noNul_hexTmp 20 arg (List.mem_reverse.mp member)⟩
  | percent => exact (show 0 ∉ [chr '%'] by decide)
  | unknown c =>
      rw [Conversion.render, List.mem_singleton]
      rintro rfl
      exact known rfl

theorem Conversion.ofByte_eq_char_iff (c : Byte) : Conversion.ofByte c = .char ↔ c = chr 'c' := by
  revert c
  decide

theorem Conversion.ofByte_ne_unknown {c : Byte} (nonzero : c ≠ 0) :
    Conversion.ofByte c ≠ .unknown 0 := by
  revert c
  decide

theorem padCharOf_ne_zero (digits : List Byte) : padCharOf digits ≠ 0 := by
  unfold padCharOf
  split
  case isTrue => decide
  case isFalse => decide

/-- The zero of a `%c` comes behind its padding. -/
theorem zero_mem_take_char {padChar : Byte} (padding : padChar ≠ 0) (count room : ℕ) (c : Byte) :
    0 ∈ (List.replicate count padChar ++ [c]).take room ↔ c = 0 ∧ count < room := by
  rw [List.take_append, List.mem_append, List.length_replicate]
  constructor
  · rintro (padded | last)
    · exact absurd (List.eq_of_mem_replicate (List.mem_of_mem_take padded)).symm padding
    · refine ⟨(List.mem_singleton.mp (List.mem_of_mem_take last)).symm, ?_⟩
      by_contra cut
      rw [Nat.sub_eq_zero_of_le (Nat.le_of_not_lt cut), List.take_zero] at last
      exact List.not_mem_nil last
  · rintro ⟨rfl, reached⟩
    refine .inr ?_
    rw [List.take_of_length_le]
    · exact List.mem_singleton_self 0
    · rw [List.length_singleton]
      omega

/-- Where a `%c` with a zero argument would put its character, counted from the directive. -/
def nulOffset (digits : List Byte) : ℕ := passes (toPadWidth (widthOf digits) 1)

/-- **A directive writes no zero, unless it is a `%c` with a zero argument that is reached.** -/
theorem Directive.noNul_emit_iff (text : Strings) (args : VaList) (room : ℕ) (directive : Directive) :
    0 ∉ directive.emit text args room ↔
      ∀ digits complete, directive = .specifier digits (chr 'c') complete →
        (args 0).setWidth 8 = (0 : Byte) → room ≤ nulOffset digits := by
  cases directive with
  | literal c plain =>
      refine iff_of_true ?_ (fun _ _ same => Directive.noConfusion same)
      intro member
      exact plain.1 (List.mem_singleton.mp (List.mem_of_mem_take member)).symm
  | specifier digits c complete =>
      by_cases char : c = chr 'c'
      · subst char
        have emitted : Directive.emit text args room (.specifier digits (chr 'c') complete) =
            (List.replicate (nulOffset digits) (padCharOf digits) ++
              [(args 0).setWidth 8]).take room := rfl
        rw [emitted, zero_mem_take_char (padCharOf_ne_zero digits), not_and, not_lt]
        constructor
        · intro cut digits' _ same zero
          obtain rfl : digits = digits' := by injection same
          exact cut zero
        · intro cut
          exact cut digits complete rfl
      · refine iff_of_true ?_ (fun _ _ same => ?_)
        · have notChar := mt (Conversion.ofByte_eq_char_iff c).mp char
          have text := Conversion.noNul_render text (padCharOf_ne_zero digits) (widthOf digits) (args 0)
            notChar (Conversion.ofByte_ne_unknown complete.2.2)
          rw [Directive.emit, Conversion.emit]
          split
          case isTrue =>
              intro member
              exact noNul_hexTmp 20 (args 0) (List.mem_reverse.mp (List.mem_of_mem_take member))
          case isFalse => exact fun member => text (List.mem_of_mem_take member)
        · injection same with _ same
          exact absurd same char

/-- Every `%c` with a zero argument stands where `room` characters have already been
written. -/
def NulsCutOff (text : Strings) (room : ℕ) (directives : List Directive) (args : VaList) : Prop :=
  ∀ before digits complete after,
    directives = before ++ .specifier digits (chr 'c') complete :: after →
      (argsAfter before args 0).setWidth 8 = (0 : Byte) →
        room ≤ (renderAll text before args).length + nulOffset digits

theorem nulsCutOff_cons (text : Strings) (room : ℕ) (directive : Directive) (directives : List Directive)
    (args : VaList) :
    NulsCutOff text room (directive :: directives) args ↔
      (∀ digits complete, directive = .specifier digits (chr 'c') complete →
        (args 0).setWidth 8 = (0 : Byte) → room ≤ nulOffset digits) ∧
        NulsCutOff text (room - (directive.render text args).length) directives
          (directive.nextArgs args) := by
  constructor
  · intro cut
    refine ⟨?_, ?_⟩
    · intro digits complete same zero
      have first := cut [] digits complete directives (by rw [same, List.nil_append]) zero
      rwa [renderAll, List.length_nil, Nat.zero_add] at first
    · intro before digits complete after same zero
      have later := cut (directive :: before) digits complete after (by rw [same, List.cons_append]) zero
      rw [renderAll, List.length_append] at later
      omega
  · rintro ⟨first, later⟩ before digits complete after same zero
    cases before with
    | nil =>
        rw [List.nil_append] at same
        obtain ⟨here, -⟩ := List.cons.inj same
        rw [renderAll, List.length_nil, Nat.zero_add]
        exact first digits complete here zero
    | cons other before =>
        rw [List.cons_append] at same
        obtain ⟨rfl, behind⟩ := List.cons.inj same
        have rest := later before digits complete after behind zero
        rw [renderAll, List.length_append]
        omega

/-- **The message holds no zero if and only if all of them are cut off.** -/
theorem noNul_emitAll_iff (text : Strings) (room : ℕ) (directives : List Directive) (args : VaList) :
    0 ∉ emitAll text room directives args ↔ NulsCutOff text room directives args := by
  induction directives generalizing room args with
  | nil =>
      refine iff_of_true List.not_mem_nil ?_
      intro before _ _ _ same
      simp at same
  | cons directive directives ih =>
      have left : room - (directive.emit text args room).length =
          room - (directive.render text args).length := by
        rw [directive.length_emit]
        omega
      rw [emitAll, List.mem_append, not_or, directive.noNul_emit_iff, left, ih, nulsCutOff_cons]

/-! ## `printk` -/

/-- The directives behind a level. -/
def messageOf : List Directive → List Directive
  | .literal c plain :: .literal level plain' :: directives =>
      if c = 1 ∧ chr '0' ≤ level ∧ level ≤ chr '7' then directives
      else .literal c plain :: .literal level plain' :: directives
  | directives => directives

theorem actualFmt_formatChars (directives : List Directive) (rest : List Byte) :
    actualFmt (formatChars directives ++ 0 :: rest) = formatChars (messageOf directives) ++ 0 :: rest := by
  have unleveled {fmt : List Byte} (test : isLeveled fmt = false) : actualFmt fmt = fmt := by
    rw [actualFmt, test]
    rfl
  -- A level is two plain characters; everything else is no level by its first or second one.
  match directives with
  | [] => exact unleveled rfl
  | .specifier digits c complete :: directives => exact unleveled rfl
  | [.literal c plain] =>
      apply unleveled
      simp [isLeveled, formatChars, Directive.chars, peek, chr]
  | .literal c plain :: .specifier digits c' complete :: directives =>
      apply unleveled
      simp [isLeveled, formatChars, Directive.chars, peek, chr]
  | .literal c plain :: .literal level plain' :: directives =>
      have test : isLeveled
          (formatChars (.literal c plain :: .literal level plain' :: directives) ++ 0 :: rest) =
          decide (c = 1 ∧ chr '0' ≤ level ∧ level ≤ chr '7') := by
        simp [isLeveled, formatChars, Directive.chars, peek, Bool.and_assoc]
      rw [messageOf]
      split
      case isTrue leveled =>
          rw [actualFmt, test, decide_eq_true leveled]
          rfl
      case isFalse plain =>
          apply unleveled
          rw [test, decide_eq_false plain]

/-- **Log and screen agree if and only if every `%c` with a zero argument is cut off by the end
of the buffer.** -/
theorem printk_agrees_iff (text : Strings) (tmp : ℕ → Byte) (directives : List Directive)
    (rest : List Byte) (args : VaList) (s : Logger) :
    Agrees text tmp (formatChars directives ++ 0 :: rest) args s ↔
      NulsCutOff text (logBufSize - 1) (messageOf directives) args := by
  rw [agrees_iff_noNul text tmp (messageOf directives) rest (actualFmt_formatChars directives rest),
    noNul_emitAll_iff]
  rfl

/-- `printk("%c", 0)`. -/
def nulDirective : Directive := .specifier [] (chr 'c') (by decide)

/-- A single zero: the log gets it and it is counted, but the screen gets nothing. -/
theorem printk_nul_differs :
    ¬ Agrees (fun _ => nullText) (fun _ => 0) (formatChars [nulDirective] ++ [0]) (fun _ => 0)
      ⟨fun _ => 0, 0, 0, powerOn (fun _ => 0) ⟨0, fun _ => 0⟩ 0 0⟩ := by
  rw [agrees_iff_noNul _ _ [nulDirective] [] rfl, not_not]
  exact List.mem_singleton_self 0

end KernelV.Console
