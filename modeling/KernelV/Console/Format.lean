import KernelV.Console.Vga
import KernelV.Library.BoundedWriter

/-!
# Formatting messages

`my_vsnprintf` goes through a format string and writes into a buffer, never past its end.

The format is memory: the bytes from the pointer on, whatever they are, with zeros behind the
end of the list. Arguments are the words on the stack above the format, and an argument of
`%s` is an address in a memory of strings.

A format all of whose specifiers are complete is a sequence of directives. On such a format
the output is that of the directives one after the other, as far as there is room
(`scanLoop_directives`). Each directive writes the first characters of its text; only `%p`
leaves out its `0x` when there is no room for both characters (`Directive.emit`).
-/

set_option autoImplicit false

namespace KernelV.Console

open Library Memory

/-! ## Arguments -/

/-- A string in memory, up to its terminator. -/
structure CString where
  bytes : List Byte
  noNul : 0 ∉ bytes

/-- The strings in memory, by address. -/
abbrev Strings := Word → CString

/-- `va_list`: the words on the stack from the next argument on. -/
abbrev VaList := ℕ → Word

/-- The list after `va_arg`. -/
def VaList.next (args : VaList) : VaList := fun i => args (i + 1)

def nullText : CString where
  bytes := "(null)".toList.map chr
  noNul := by decide

/-! ## Reading the format -/

/-- `*fmt`. -/
def peek (fmt : List Byte) : Byte := fmt.headD 0

/-- `*fmt >= '0' && *fmt <= '9'`. -/
def isDigit (c : Byte) : Bool := chr '0' ≤ c && c ≤ chr '9'

/-- `pad_width * 10 + (*fmt - '0')`, which wraps around. -/
def addDigit (padWidth : Word) (c : Byte) : Word := padWidth * 10 + (c.setWidth 32 - 0x30)

/-- The loop that reads the width. -/
def parseWidth : List Byte → Word → Word × List Byte
  | [], padWidth => (padWidth, [])
  | c :: fmt, padWidth =>
      if isDigit c then parseWidth fmt (addDigit padWidth c) else (padWidth, c :: fmt)

/-- The cases of the `switch`. -/
inductive Conversion where
  | string | char | decimal | unsigned | hex | pointer | percent
  | unknown (c : Byte)
  deriving DecidableEq, Repr

def Conversion.ofByte (c : Byte) : Conversion :=
  if c = chr 's' then .string
  else if c = chr 'c' then .char
  else if c = chr 'd' then .decimal
  else if c = chr 'u' then .unsigned
  else if c = chr 'x' then .hex
  else if c = chr 'p' then .pointer
  else if c = chr '%' then .percent
  else .unknown c

/-! ## Digits -/

/-- `do tmp[tmplen++] = digit; while (val && tmplen < sizeof(tmp))`, where `quotient` is the
next value. -/
def tmpDigits (digit : Word → Byte) (quotient : Word → Word) : ℕ → Word → List Byte
  | 0, _ => []
  | room + 1, val =>
      digit val :: if quotient val = 0 then [] else tmpDigits digit quotient room (quotient val)

/-- `tmp` of `%d`. The value is unsigned, and the sign comes last. -/
def decimalTmp (num : Word) : List Byte :=
  let isNegative := num.slt 0
  let val := if isNegative then -num else num
  let tmp := tmpDigits (fun val => (0x30 + val % 10).setWidth 8) (· / 10) 12 val
  if isNegative ∧ tmp.length < 12 then tmp ++ [chr '-'] else tmp

/-- `tmp` of `%u`. The value is a signed `int`. -/
def unsignedTmp (num : Word) : List Byte :=
  tmpDigits (fun num => (0x30 + num.srem 10).setWidth 8) (fun num => num.sdiv 10) 12 num

/-- A hexadecimal digit. -/
def hexDigit (num : Word) : Byte :=
  let digit := num % 16
  if digit < 10 then (0x30 + digit).setWidth 8 else (0x61 + digit - 10).setWidth 8

/-- `tmp` of `%x` and `%p`. -/
def hexTmp (room : ℕ) (num : Word) : List Byte :=
  if num = 0 then [chr '0'] else tmpDigits hexDigit (· / 16) room num

/-! ## Padding -/

/-- `to_pad_width` of all conversions but `%s`. -/
def toPadWidth (padWidth : Word) (len : ℕ) : Word :=
  let width := padWidth - BitVec.ofNat 32 len
  if width.slt 0 then 0 else width

/-- `to_pad_width` of `%s`. -/
def toPadWidthString (padWidth : Word) (strLen : ℕ) : Word :=
  if padWidth.slt (BitVec.ofNat 32 strLen) then 0 else padWidth - BitVec.ofNat 32 strLen

/-- How often `while (to_pad_width-- > 0)` goes round. -/
def passes (width : Word) : ℕ := width.toInt.toNat

/-- Padding and then characters. -/
def writePadded (limit : ℕ) (padChar : Byte) (width : Word) (chars : List Byte) (out : Writer Byte) :
    Writer Byte :=
  (out.writeRepeat limit padChar (passes width)).writeAll limit chars

/-! ## The formatter -/

/-- The string behind an argument of `%s`. -/
def stringArg (text : Strings) (ptr : Word) : List Byte :=
  if ptr = 0 then nullText.bytes else (text ptr).bytes

/-- The `switch`: the arguments and the buffer after a conversion. -/
def convert (limit : ℕ) (text : Strings) (padChar : Byte) (padWidth : Word) (conversion : Conversion)
    (args : VaList) (out : Writer Byte) : VaList × Writer Byte :=
  match conversion with
  | .string =>
      let str := stringArg text (args 0)
      (args.next, writePadded limit padChar (toPadWidthString padWidth str.length) str out)
  | .char =>
      let c := (args 0).setWidth 8
      (args.next, (out.writeRepeat limit padChar (passes (toPadWidth padWidth 1))).write limit c)
  | .decimal =>
      let tmp := decimalTmp (args 0)
      (args.next, writePadded limit padChar (toPadWidth padWidth tmp.length) tmp.reverse out)
  | .unsigned =>
      let tmp := unsignedTmp (args 0)
      (args.next, writePadded limit padChar (toPadWidth padWidth tmp.length) tmp.reverse out)
  | .hex =>
      let tmp := hexTmp 12 (args 0)
      (args.next, writePadded limit padChar (toPadWidth padWidth tmp.length) tmp.reverse out)
  | .pointer =>
      let out := if out.next < limit - 1 then (out.put (chr '0')).put (chr 'x') else out
      (args.next, out.writeAll limit (hexTmp 20 (args 0)).reverse)
  | .percent => (args, out.write limit (chr '%'))
  | .unknown c => (args, out.write limit c)

/-- The variables of the loop. -/
structure Scan where
  /-- The memory from the pointer on. -/
  fmt : List Byte
  args : VaList
  /-- The buffer with `p`. -/
  out : Writer Byte

/-- A pass of the loop behind a `%`. -/
def Scan.specifier (limit : ℕ) (text : Strings) (s : Scan) : Scan :=
  let padChar := if peek s.fmt = chr '0' then chr '0' else chr ' '
  let fmt := if peek s.fmt = chr '0' then s.fmt.tail else s.fmt
  let width := parseWidth fmt 0
  let converted := convert limit text padChar width.1 (.ofByte (peek width.2)) s.args s.out
  { fmt := width.2.tail, args := converted.1, out := converted.2 }

/-- One pass of the loop. -/
def Scan.pass (limit : ℕ) (text : Strings) (s : Scan) : Scan :=
  if peek s.fmt = chr '%' then Scan.specifier limit text { s with fmt := s.fmt.tail }
  else { s with fmt := s.fmt.tail, out := s.out.write limit (peek s.fmt) }

/-- The loop, given up after `fuel` passes. -/
def scanLoop (limit : ℕ) (text : Strings) : ℕ → Scan → Scan
  | 0, s => s
  | fuel + 1, s =>
      if peek s.fmt ≠ 0 ∧ s.out.next < limit then scanLoop limit text fuel (s.pass limit text) else s

/-- `my_vsnprintf`. The number of characters is the place of the terminator. -/
def myVsnprintf (text : Strings) (buf : ℕ → Byte) (size : ℕ) (fmt : List Byte) (args : VaList) : Scan :=
  let s := scanLoop (size - 1) text fmt.length ⟨fmt, args, ⟨buf, 0, []⟩⟩
  { s with out := s.out.set 0 }

theorem length_parseWidth (fmt : List Byte) (padWidth : Word) :
    (parseWidth fmt padWidth).2.length ≤ fmt.length := by
  induction fmt generalizing padWidth with
  | nil => rfl
  | cons c fmt ih =>
      rw [parseWidth]
      split
      case isTrue => exact (ih _).trans (Nat.le_succ _)
      case isFalse => rfl

theorem length_specifier (limit : ℕ) (text : Strings) (s : Scan) :
    (s.specifier limit text).fmt.length ≤ s.fmt.length := by
  have flag : (if peek s.fmt = chr '0' then s.fmt.tail else s.fmt).length ≤ s.fmt.length := by
    split
    case isTrue =>
        rw [List.length_tail]
        exact Nat.sub_le _ _
    case isFalse => rfl
  rw [Scan.specifier, List.length_tail]
  exact (Nat.sub_le _ _).trans ((length_parseWidth _ 0).trans flag)

/-- A pass reads at least one character. -/
theorem length_pass (limit : ℕ) (text : Strings) (s : Scan) (more : peek s.fmt ≠ 0) :
    (s.pass limit text).fmt.length < s.fmt.length := by
  have nonempty : s.fmt ≠ [] := by
    intro empty
    rw [empty] at more
    exact more rfl
  have shorter : s.fmt.tail.length < s.fmt.length := by
    rw [List.length_tail]
    exact Nat.sub_lt (List.length_pos_of_ne_nil nonempty) Nat.one_pos
  unfold Scan.pass
  split
  case isTrue => exact (length_specifier limit text _).trans_lt shorter
  case isFalse => exact shorter

/-- **The loop ends by its own test**: at the terminator, or when the buffer is full. -/
theorem scanLoop_stops (limit : ℕ) (text : Strings) (fuel : ℕ) (s : Scan) (enough : s.fmt.length ≤ fuel) :
    peek (scanLoop limit text fuel s).fmt = 0 ∨ limit ≤ (scanLoop limit text fuel s).out.next := by
  induction fuel generalizing s with
  | zero =>
      have empty : s.fmt = [] := List.eq_nil_of_length_eq_zero (Nat.le_zero.mp enough)
      exact .inl (by rw [scanLoop, empty, peek, List.headD_nil])
  | succ fuel ih =>
      rw [scanLoop]
      split
      case isTrue test =>
          have shorter := length_pass limit text s test.1
          exact ih _ (by omega)
      case isFalse stop =>
          rcases Classical.not_and_iff_not_or_not.mp stop with terminator | full
          · exact .inl (not_not.mp terminator)
          · exact .inr (not_lt.mp full)

/-! ## Complete formats -/

/-- A part of a format string: a plain character, or a complete specifier. The flag `0` is one
of the digits. -/
inductive Directive where
  | literal (c : Byte) (plain : c ≠ 0 ∧ c ≠ chr '%')
  | specifier (digits : List Byte) (c : Byte)
      (complete : (∀ d ∈ digits, isDigit d = true) ∧ isDigit c = false ∧ c ≠ 0)

/-- How a directive is written. -/
def Directive.chars : Directive → List Byte
  | .literal c _ => [c]
  | .specifier digits c _ => chr '%' :: (digits ++ [c])

/-- How a format is written. -/
def formatChars (directives : List Directive) : List Byte := directives.flatMap Directive.chars

theorem formatChars_cons (directive : Directive) (directives : List Directive) :
    formatChars (directive :: directives) = directive.chars ++ formatChars directives :=
  List.flatMap_cons

theorem length_formatChars_cons (directive : Directive) (directives : List Directive) :
    (formatChars (directive :: directives)).length =
      directive.chars.length + (formatChars directives).length := by
  rw [formatChars_cons, List.length_append]

/-- The character to pad with. -/
def padCharOf (digits : List Byte) : Byte := if peek digits = chr '0' then chr '0' else chr ' '

/-- The width, which wraps around. -/
def widthOf (digits : List Byte) : Word := digits.foldl addDigit 0

/-- The text of a conversion, without regard to room. -/
def Conversion.render (text : Strings) (padChar : Byte) (padWidth : Word) (arg : Word) :
    Conversion → List Byte
  | .string =>
      List.replicate (passes (toPadWidthString padWidth (stringArg text arg).length)) padChar ++
        stringArg text arg
  | .char => List.replicate (passes (toPadWidth padWidth 1)) padChar ++ [arg.setWidth 8]
  | .decimal =>
      List.replicate (passes (toPadWidth padWidth (decimalTmp arg).length)) padChar ++
        (decimalTmp arg).reverse
  | .unsigned =>
      List.replicate (passes (toPadWidth padWidth (unsignedTmp arg).length)) padChar ++
        (unsignedTmp arg).reverse
  | .hex =>
      List.replicate (passes (toPadWidth padWidth (hexTmp 12 arg).length)) padChar ++
        (hexTmp 12 arg).reverse
  | .pointer => [chr '0', chr 'x'] ++ (hexTmp 20 arg).reverse
  | .percent => [chr '%']
  | .unknown c => [c]

/-- What a conversion writes when there is room for `room` characters. -/
def Conversion.emit (text : Strings) (padChar : Byte) (padWidth : Word) (arg : Word) (room : ℕ)
    (conversion : Conversion) : List Byte :=
  -- The prefix of a pointer is left out when it does not fit, and the digits are not.
  if conversion = .pointer ∧ room < 2 then (hexTmp 20 arg).reverse.take room
  else (conversion.render text padChar padWidth arg).take room

/-- The arguments behind a conversion. -/
def Conversion.nextArgs (args : VaList) : Conversion → VaList
  | .percent => args
  | .unknown _ => args
  | _ => args.next

/-- **What a conversion does.** -/
theorem convert_eq (limit : ℕ) (text : Strings) (padChar : Byte) (padWidth : Word)
    (conversion : Conversion) (args : VaList) (out : Writer Byte) :
    convert limit text padChar padWidth conversion args out =
      (conversion.nextArgs args,
        out.putAll (conversion.emit text padChar padWidth (args 0) (limit - out.next))) := by
  cases conversion with
  | pointer =>
      by_cases room : out.next < limit - 1
      · have fits : ¬ (Conversion.pointer = .pointer ∧ limit - out.next < 2) := by omega
        have left : limit - out.next = limit - ((out.put (chr '0')).put (chr 'x')).next + 2 := by
          simp only [Writer.next_put]
          omega
        rw [Conversion.emit, if_neg fits, left]
        simp only [convert, Conversion.nextArgs, Conversion.render, if_pos room, Writer.writeAll_eq,
          List.cons_append, List.nil_append, List.take_succ_cons, Writer.putAll_cons]
      · have tight : limit - out.next < 2 := by omega
        simp only [convert, Conversion.nextArgs, Conversion.emit, tight, and_self, if_true, if_neg room,
          Writer.writeAll_eq]
  | string | char | decimal | unsigned | hex | percent | unknown c =>
      simp only [convert, writePadded, Conversion.nextArgs, Conversion.emit, Conversion.render,
        Writer.writeRepeat_eq, Writer.write_eq, Writer.writeAll_append, ← Writer.writeAll_eq,
        reduceCtorEq, false_and, if_false]

/-- The text of a directive. -/
def Directive.render (text : Strings) (args : VaList) : Directive → List Byte
  | .literal c _ => [c]
  | .specifier digits c _ =>
      (Conversion.ofByte c).render text (padCharOf digits) (widthOf digits) (args 0)

/-- What a directive writes when there is room for `room` characters. -/
def Directive.emit (text : Strings) (args : VaList) (room : ℕ) : Directive → List Byte
  | .literal c _ => [c].take room
  | .specifier digits c _ =>
      (Conversion.ofByte c).emit text (padCharOf digits) (widthOf digits) (args 0) room

/-- The arguments behind a directive. -/
def Directive.nextArgs (args : VaList) : Directive → VaList
  | .literal _ _ => args
  | .specifier _ c _ => (Conversion.ofByte c).nextArgs args

/-- The width is read up to the first character that is not a digit. -/
theorem parseWidth_append (digits rest : List Byte) (padWidth : Word)
    (isDigits : ∀ d ∈ digits, isDigit d = true) (stops : isDigit (peek rest) = false) :
    parseWidth (digits ++ rest) padWidth = (digits.foldl addDigit padWidth, rest) := by
  induction digits generalizing padWidth with
  | nil =>
      cases rest with
      | nil => rfl
      | cons c rest =>
          rw [List.nil_append, parseWidth, if_neg (by simpa [peek] using stops)]
          rfl
  | cons d digits ih =>
      have first := isDigits d List.mem_cons_self
      rw [List.cons_append, parseWidth, if_pos first,
        ih _ fun d member => isDigits d (List.mem_cons_of_mem _ member)]
      rfl

/-- The flag and the width of a specifier. -/
theorem parse_specifier {digits : List Byte} {c : Byte} (rest : List Byte)
    (isDigits : ∀ d ∈ digits, isDigit d = true) (stops : isDigit c = false) :
    (if peek (digits ++ c :: rest) = chr '0' then chr '0' else chr ' ') = padCharOf digits ∧
      parseWidth (if peek (digits ++ c :: rest) = chr '0' then (digits ++ c :: rest).tail
        else digits ++ c :: rest) 0 = (widthOf digits, c :: rest) := by
  cases digits with
  | nil =>
      -- Without digits the character that is read cannot be the flag.
      have other : ¬ peek (c :: rest) = chr '0' := by
        intro same
        rw [show c = chr '0' from same] at stops
        exact absurd stops (by decide)
      rw [List.nil_append, if_neg other, if_neg other]
      exact ⟨rfl, parseWidth_append [] (c :: rest) 0 isDigits stops⟩
  | cons d digits =>
      refine ⟨rfl, ?_⟩
      split
      case isTrue flag =>
          obtain rfl : d = chr '0' := flag
          exact parseWidth_append digits (c :: rest) 0
            (fun e member => isDigits e (List.mem_cons_of_mem _ member)) stops
      case isFalse => exact parseWidth_append (d :: digits) (c :: rest) 0 isDigits stops

/-- **One pass handles one directive.** -/
theorem Scan.pass_directive (limit : ℕ) (text : Strings) (directive : Directive) (rest : List Byte)
    (args : VaList) (out : Writer Byte) :
    Scan.pass limit text ⟨directive.chars ++ rest, args, out⟩ =
      ⟨rest, directive.nextArgs args, out.putAll (directive.emit text args (limit - out.next))⟩ := by
  cases directive with
  | literal c plain =>
      have first : peek ([c] ++ rest) ≠ chr '%' := plain.2
      rw [Scan.pass, Directive.chars, if_neg first, Writer.write_eq, Writer.writeAll_eq]
      rfl
  | specifier digits c complete =>
      obtain ⟨padChar, width⟩ := parse_specifier rest complete.1 complete.2.1
      have read : Directive.chars (.specifier digits c complete) ++ rest =
          chr '%' :: (digits ++ c :: rest) := by simp [Directive.chars]
      have pass : Scan.pass limit text ⟨chr '%' :: (digits ++ c :: rest), args, out⟩ =
          Scan.specifier limit text ⟨digits ++ c :: rest, args, out⟩ := rfl
      rw [read, pass, Scan.specifier, padChar, width, convert_eq]
      rfl

/-- A conversion leaves no more than fits. -/
theorem Conversion.length_emit (text : Strings) (padChar : Byte) (padWidth arg : Word) (room : ℕ)
    (conversion : Conversion) :
    (conversion.emit text padChar padWidth arg room).length =
      min room (conversion.render text padChar padWidth arg).length := by
  rw [Conversion.emit]
  split
  case isTrue tight =>
      -- Where the prefix does not fit, the first digit fills the buffer.
      have digit : 0 < (hexTmp 20 arg).length := by
        rw [hexTmp]
        split
        case isTrue => exact Nat.one_pos
        case isFalse => exact Nat.succ_pos _
      rw [tight.1, Conversion.render, List.length_take, List.length_append, List.length_reverse,
        List.length_cons, List.length_singleton]
      omega
  case isFalse => rw [List.length_take]

theorem Directive.length_emit (text : Strings) (args : VaList) (room : ℕ) (directive : Directive) :
    (directive.emit text args room).length = min room (directive.render text args).length := by
  cases directive with
  | literal c plain => rw [Directive.emit, Directive.render, List.length_take]
  | specifier digits c complete => exact Conversion.length_emit ..

theorem Conversion.emit_of_le (text : Strings) (padChar : Byte) (padWidth arg : Word) {room : ℕ}
    {conversion : Conversion} (fits : (conversion.render text padChar padWidth arg).length ≤ room) :
    conversion.emit text padChar padWidth arg room = conversion.render text padChar padWidth arg := by
  have prefixed : ¬ (conversion = .pointer ∧ room < 2) := by
    rintro ⟨rfl, tight⟩
    rw [Conversion.render, List.length_append, List.length_cons, List.length_singleton] at fits
    omega
  rw [Conversion.emit, if_neg prefixed, List.take_of_length_le fits]

/-- With room for it, a directive writes its text. -/
theorem Directive.emit_of_le (text : Strings) (args : VaList) {room : ℕ} {directive : Directive}
    (fits : (directive.render text args).length ≤ room) :
    directive.emit text args room = directive.render text args := by
  cases directive with
  | literal c plain => exact List.take_of_length_le fits
  | specifier digits c complete => exact Conversion.emit_of_le text _ _ _ fits

/-! ## Whole formats -/

/-- The text of several directives, without regard to room. -/
def renderAll (text : Strings) : List Directive → VaList → List Byte
  | [], _ => []
  | directive :: directives, args =>
      directive.render text args ++ renderAll text directives (directive.nextArgs args)

/-- The arguments behind several directives. -/
def argsAfter (directives : List Directive) (args : VaList) : VaList :=
  directives.foldl (fun args directive => directive.nextArgs args) args

/-- What the directives write together when there is room for `room` characters. -/
def emitAll (text : Strings) : ℕ → List Directive → VaList → List Byte
  | _, [], _ => []
  | room, directive :: directives, args =>
      directive.emit text args room ++
        emitAll text (room - (directive.emit text args room).length) directives
          (directive.nextArgs args)

theorem emitAll_zero (text : Strings) (directives : List Directive) (args : VaList) :
    emitAll text 0 directives args = [] := by
  have nothing (directive : Directive) (args : VaList) : directive.emit text args 0 = [] := by
    cases directive with
    | literal c plain => rfl
    | specifier digits c complete => simp [Directive.emit, Conversion.emit]
  induction directives generalizing args with
  | nil => rfl
  | cons directive directives ih => rw [emitAll, nothing, List.nil_append, List.length_nil, ih]

/-- A directive starts with a character, and not with the terminator. -/
theorem Directive.chars_cons (directive : Directive) :
    ∃ c rest, directive.chars = c :: rest ∧ c ≠ 0 := by
  cases directive with
  | literal c plain => exact ⟨c, [], rfl, plain.1⟩
  | specifier digits c complete => exact ⟨chr '%', digits ++ [c], rfl, by decide⟩

theorem Directive.length_chars_pos (directive : Directive) : 0 < directive.chars.length := by
  obtain ⟨c, rest, starts, -⟩ := directive.chars_cons
  rw [starts]
  exact Nat.succ_pos _

/-- A format with a directive does not start with the terminator. -/
theorem peek_formatChars_cons (tail : List Byte) (directive : Directive) (directives : List Directive) :
    peek (formatChars (directive :: directives) ++ tail) ≠ 0 := by
  obtain ⟨c, chars, starts, nonzero⟩ := directive.chars_cons
  rw [formatChars_cons, starts]
  exact nonzero

theorem formatChars_cons_append (tail : List Byte) (directive : Directive)
    (directives : List Directive) :
    formatChars (directive :: directives) ++ tail = directive.chars ++ (formatChars directives ++ tail) := by
  rw [formatChars_cons, List.append_assoc]

/-- The next pass handles the first directive. -/
theorem scanLoop_cons {limit : ℕ} (text : Strings) (tail : List Byte) (fuel : ℕ) (directive : Directive)
    (directives : List Directive) (args : VaList) {out : Writer Byte} (room : out.next < limit) :
    scanLoop limit text (fuel + 1) ⟨formatChars (directive :: directives) ++ tail, args, out⟩ =
      scanLoop limit text fuel ⟨formatChars directives ++ tail, directive.nextArgs args,
        out.putAll (directive.emit text args (limit - out.next))⟩ := by
  have test := And.intro (peek_formatChars_cons tail directive directives) room
  rw [scanLoop, if_pos test, formatChars_cons_append, Scan.pass_directive]

/-- **The output for a complete format.** -/
theorem scanLoop_directives (limit : ℕ) (text : Strings) (directives : List Directive)
    (rest : List Byte) {fuel : ℕ} (enough : (formatChars directives).length ≤ fuel) (args : VaList)
    (out : Writer Byte) :
    (scanLoop limit text fuel ⟨formatChars directives ++ 0 :: rest, args, out⟩).out =
      out.putAll (emitAll text (limit - out.next) directives args) := by
  induction directives generalizing fuel args out with
  | nil =>
      cases fuel with
      | zero => rfl
      | succ fuel =>
          rw [scanLoop, if_neg fun test => test.1 rfl]
          rfl
  | cons directive directives ih =>
      have positive := directive.length_chars_pos
      rw [length_formatChars_cons] at enough
      cases fuel with
      | zero => omega
      | succ fuel =>
          by_cases room : out.next < limit
          · have left (written : List Byte) :
                limit - (out.putAll written).next = limit - out.next - written.length := by
              rw [Writer.next_putAll]
              omega
            rw [scanLoop_cons text _ fuel directive directives args room, ih (by omega), left, emitAll,
              Writer.putAll_append]
          · rw [scanLoop, if_neg fun test => room test.2, Nat.sub_eq_zero_of_le (Nat.le_of_not_lt room),
              emitAll_zero, Writer.putAll_nil]

theorem length_emitAll_le (text : Strings) (room : ℕ) (directives : List Directive) (args : VaList) :
    (emitAll text room directives args).length ≤ room := by
  induction directives generalizing room args with
  | nil => exact Nat.zero_le room
  | cons directive directives ih =>
      have rest := ih (room - (directive.emit text args room).length) (directive.nextArgs args)
      have first := directive.length_emit text args room
      rw [emitAll, List.length_append]
      omega

/-- A buffer that holds a message and its terminator. -/
def terminated (buf : ℕ → Byte) (message : List Byte) : Writer Byte :=
  Writer.set 0 (Writer.putAll message ⟨buf, 0, []⟩)

/-- The buffer after `my_vsnprintf`, for a complete format. -/
theorem myVsnprintf_directives (text : Strings) (buf : ℕ → Byte) (size : ℕ)
    (directives : List Directive) (rest : List Byte) (args : VaList) :
    (myVsnprintf text buf size (formatChars directives ++ 0 :: rest) args).out =
      terminated buf (emitAll text (size - 1) directives args) := by
  have enough : (formatChars directives).length ≤ (formatChars directives ++ 0 :: rest).length := by
    rw [List.length_append]
    exact Nat.le_add_right _ _
  exact congrArg (Writer.set 0)
    (scanLoop_directives (size - 1) text directives rest enough args ⟨buf, 0, []⟩)

theorem next_terminated (buf : ℕ → Byte) (message : List Byte) :
    (terminated buf message).next = message.length :=
  (Writer.next_putAll message ⟨buf, 0, []⟩).trans (Nat.zero_add _)

theorem contents_terminated (buf : ℕ → Byte) (message : List Byte) :
    (terminated buf message).contents = message :=
  (Writer.contents_set 0 _).trans (Writer.contents_putAll message ⟨buf, 0, []⟩)

/-- The text that `my_vsnprintf` leaves in the buffer, as long as it says. -/
def formatted (text : Strings) (buf : ℕ → Byte) (size : ℕ) (fmt : List Byte) (args : VaList) :
    List Byte :=
  (myVsnprintf text buf size fmt args).out.contents

theorem formatted_directives (text : Strings) (buf : ℕ → Byte) (size : ℕ) (directives : List Directive)
    (rest : List Byte) (args : VaList) :
    formatted text buf size (formatChars directives ++ 0 :: rest) args =
      emitAll text (size - 1) directives args := by
  rw [formatted, myVsnprintf_directives, contents_terminated]

end KernelV.Console
