import KernelV.Console.Format

/-!
# What the formatter reads and writes

The writes of `my_vsnprintf` are safe for every format, complete or not: each pass writes
no more than there is room for, so the output and its terminator fill the buffer from its
start and never reach its end (`myVsnprintf_writes`).

The reads are not. The loop steps over the character behind a specifier without a test, and
when the format ends inside a specifier this character is the terminator. The loop then goes
on behind the format. `formatReads_inside_iff`: this is exactly what happens when the text
before the cut specifier leaves room in the buffer.
-/

set_option autoImplicit false

namespace KernelV.Console

open Library Memory

/-! ## Writes -/

/-- **A pass writes no more than there is room for.** -/
theorem Scan.pass_putAll (limit : ℕ) (text : Strings) (s : Scan) :
    ∃ written, (s.pass limit text).out = s.out.putAll written ∧
      written.length ≤ limit - s.out.next := by
  unfold Scan.pass
  split
  case isTrue =>
      refine ⟨_, congrArg Prod.snd (convert_eq ..), ?_⟩
      rw [Conversion.length_emit]
      exact Nat.min_le_left _ _
  case isFalse =>
      refine ⟨[peek s.fmt].take (limit - s.out.next), ?_, List.length_take_le _ _⟩
      simp only [Writer.write_eq, Writer.writeAll_eq]

/-- The loop does not either. -/
theorem scanLoop_putAll (limit : ℕ) (text : Strings) (fuel : ℕ) (s : Scan) :
    ∃ written, (scanLoop limit text fuel s).out = s.out.putAll written ∧
      written.length ≤ limit - s.out.next := by
  induction fuel generalizing s with
  | zero => exact ⟨[], rfl, Nat.zero_le _⟩
  | succ fuel ih =>
      rw [scanLoop]
      split
      case isTrue =>
          obtain ⟨first, out, short⟩ := s.pass_putAll limit text
          obtain ⟨later, rest, shortRest⟩ := ih (s.pass limit text)
          have next : (s.pass limit text).out.next = s.out.next + first.length := by
            rw [out, Writer.next_putAll]
          refine ⟨first ++ later, ?_, ?_⟩
          · rw [rest, out, Writer.putAll_append]
          · rw [next] at shortRest
            rw [List.length_append]
            omega
      case isFalse => exact ⟨[], rfl, Nat.zero_le _⟩

/-- A text and its terminator, written from the start of a buffer. -/
structure WrittenInside (buf : ℕ → Byte) (size : ℕ) (out : Writer Byte) : Prop where
  inside : ∀ place ∈ out.stores, place < size
  short : out.next ≤ size - 1
  terminated : out.cells out.next = 0
  /-- The places of the text, each of them once, and then the place of the terminator. -/
  inOrder : out.stores = List.range out.next ++ [out.next]
  kept : ∀ place, out.next < place → out.cells place = buf place

/-- **The formatter stays inside its buffer.** For every format, every list of arguments and
every size from 1 on, the loop ends by its own test, and text and terminator lie in the
buffer. -/
theorem myVsnprintf_writes (text : Strings) (buf : ℕ → Byte) {size : ℕ} (nonempty : 1 ≤ size)
    (fmt : List Byte) (args : VaList) :
    WrittenInside buf size (myVsnprintf text buf size fmt args).out ∧
      (peek (myVsnprintf text buf size fmt args).fmt = 0 ∨
        (myVsnprintf text buf size fmt args).out.next = size - 1) := by
  have ended := scanLoop_stops (size - 1) text fmt.length ⟨fmt, args, ⟨buf, 0, []⟩⟩ le_rfl
  obtain ⟨written, out, short⟩ := scanLoop_putAll (size - 1) text fmt.length ⟨fmt, args, ⟨buf, 0, []⟩⟩
  change written.length ≤ size - 1 at short
  simp only [myVsnprintf]
  generalize scanLoop (size - 1) text fmt.length ⟨fmt, args, ⟨buf, 0, []⟩⟩ = s at ended out ⊢
  have next : s.out.next = written.length := by
    rw [out, Writer.next_putAll]
    exact Nat.zero_add _
  have stores : s.out.stores = List.range s.out.next := by
    rw [next, out, Writer.stores_putAll, List.range_eq_range']
    rfl
  refine ⟨⟨fun place member => ?_, ?_, Writer.cells_set_next 0 s.out, ?_, fun place behind => ?_⟩, ?_⟩
  · rw [Writer.stores_set, stores, List.mem_append, List.mem_range, List.mem_singleton] at member
    omega
  · rw [Writer.next_set]
    omega
  · rw [Writer.stores_set, Writer.next_set, stores]
  · rw [Writer.next_set] at behind
    rw [Writer.cells_set_of_lt 0 _ behind, out]
    refine Writer.cells_putAll_of_le written _ ?_
    change 0 + written.length ≤ place
    omega
  · rw [Writer.next_set]
    exact ended.imp_right fun full => by omega

/-- A format that ends in `%` fills a buffer of two bytes and no more. -/
theorem myVsnprintf_writes_cutFormat :
    1 ≤ 2 ∧ WrittenInside (fun _ => 7) 2
      (myVsnprintf (fun _ => nullText) (fun _ => 7) 2 [chr '%', 0] fun _ => 0).out :=
  ⟨by decide, (myVsnprintf_writes (fun _ => nullText) (fun _ => 7) (by decide) [chr '%', 0] _).1⟩

/-! ## The text of any format -/

/-- What a pass writes, and where it goes on, does not depend on what the buffer holds. -/
theorem Scan.pass_withOut (limit : ℕ) (text : Strings) (s : Scan) {out : Writer Byte}
    (same : out.next = s.out.next) :
    ∃ written, (s.pass limit text).out = s.out.putAll written ∧
      Scan.pass limit text { s with out } = { s.pass limit text with out := out.putAll written } := by
  unfold Scan.pass
  dsimp only
  split
  case isTrue =>
      simp only [Scan.specifier, convert_eq, same]
      exact ⟨_, rfl, rfl⟩
  case isFalse =>
      simp only [Writer.write_eq, Writer.writeAll_eq, same]
      exact ⟨_, rfl, rfl⟩

theorem scanLoop_withOut (limit : ℕ) (text : Strings) (fuel : ℕ) (s : Scan) {out : Writer Byte}
    (same : out.next = s.out.next) :
    ∃ written, (scanLoop limit text fuel s).out = s.out.putAll written ∧
      scanLoop limit text fuel { s with out } =
        { scanLoop limit text fuel s with out := out.putAll written } := by
  induction fuel generalizing s out with
  | zero => exact ⟨[], rfl, rfl⟩
  | succ fuel ih =>
      simp only [scanLoop, same]
      split
      case isTrue =>
          obtain ⟨first, here, there⟩ := s.pass_withOut limit text same
          have next : (out.putAll first).next = (s.pass limit text).out.next := by
            rw [here, Writer.next_putAll, Writer.next_putAll, same]
          obtain ⟨later, rest, rest'⟩ := ih (s.pass limit text) next
          refine ⟨first ++ later, ?_, ?_⟩
          · rw [rest, here, Writer.putAll_append]
          · rw [there, rest', Writer.putAll_append]
      case isFalse => exact ⟨[], rfl, rfl⟩

/-- The text that a format leaves in a buffer of `size` bytes. -/
def textOf (text : Strings) (size : ℕ) (fmt : List Byte) (args : VaList) : List Byte :=
  formatted text (fun _ => 0) size fmt args

section TextOf

variable (text : Strings) (size : ℕ) (fmt : List Byte) (args : VaList)

/-- **The buffer holds the text of the format and its terminator**, whatever it held before. -/
theorem out_myVsnprintf (buf : ℕ → Byte) :
    (myVsnprintf text buf size fmt args).out = terminated buf (textOf text size fmt args) := by
  have start : (⟨buf, 0, []⟩ : Writer Byte).next = (⟨fun _ => 0, 0, []⟩ : Writer Byte).next := rfl
  obtain ⟨written, here, there⟩ := scanLoop_withOut (size - 1) text fmt.length
    ⟨fmt, args, ⟨fun _ => 0, 0, []⟩⟩ start
  have message : textOf text size fmt args = written := by
    rw [textOf, formatted, myVsnprintf, here]
    exact contents_terminated _ written
  rw [message, myVsnprintf, there]
  rfl

theorem length_textOf_le : (textOf text size fmt args).length ≤ size - 1 := by
  obtain ⟨written, out, short⟩ := scanLoop_putAll (size - 1) text fmt.length
    ⟨fmt, args, ⟨fun _ => 0, 0, []⟩⟩
  have message : textOf text size fmt args = written := by
    rw [textOf, formatted, myVsnprintf, out]
    exact contents_terminated _ written
  rw [message]
  exact short

end TextOf

/-! ## Reads -/

/-- Where the loop that reads the width looks. -/
def widthReads : List Byte → ℕ → List ℕ
  | [], index => [index]
  | c :: fmt, index => index :: if isDigit c then widthReads fmt (index + 1) else []

/-- How many characters the flag takes, behind a `%`. -/
def flagLength (fmt : List Byte) : ℕ := if peek fmt = chr '0' then 1 else 0

/-- How many characters the flag and the width take, behind a `%`. -/
def modifierLength (fmt : List Byte) : ℕ :=
  flagLength fmt + ((fmt.drop (flagLength fmt)).takeWhile isDigit).length

/-- Where a pass of the loop looks. Several looks at one character count once. -/
def passReads (fmt : List Byte) (index : ℕ) : List ℕ :=
  if peek fmt = chr '%' then
    [index, index + 1] ++
      widthReads (fmt.tail.drop (flagLength fmt.tail)) (index + 1 + flagLength fmt.tail) ++
      [index + 1 + modifierLength fmt.tail]
  else [index]

/-- How often a pass of the loop does `fmt++`. -/
def passSteps (fmt : List Byte) : ℕ :=
  if peek fmt = chr '%' then 1 + modifierLength fmt.tail + 1 else 1

/-- Where the loop looks when its pointer stands at `index`, for `fuel` tests. -/
def scanReads (limit : ℕ) (text : Strings) : ℕ → Scan → ℕ → List ℕ
  | 0, _, _ => []
  | fuel + 1, s, index =>
      index ::
        if peek s.fmt ≠ 0 ∧ s.out.next < limit then
          passReads s.fmt index ++
            scanReads limit text fuel (s.pass limit text) (index + passSteps s.fmt)
        else []

/-- Where `my_vsnprintf` looks, counted from the start of the format. -/
def formatReads (text : Strings) (buf : ℕ → Byte) (size : ℕ) (fmt : List Byte) (args : VaList) :
    List ℕ :=
  scanReads (size - 1) text (fmt.length + 1) ⟨fmt, args, ⟨buf, 0, []⟩⟩ 0

theorem parseWidth_eq (fmt : List Byte) (padWidth : Word) :
    (parseWidth fmt padWidth).2 = fmt.drop (fmt.takeWhile isDigit).length := by
  induction fmt generalizing padWidth with
  | nil => rfl
  | cons c fmt ih =>
      rw [parseWidth, List.takeWhile_cons]
      split
      case isTrue => rw [ih, List.length_cons, List.drop_succ_cons]
      case isFalse => rfl

/-- The index of a pass is where its pointer stands. -/
theorem Scan.fmt_pass (limit : ℕ) (text : Strings) (s : Scan) :
    (s.pass limit text).fmt = s.fmt.drop (passSteps s.fmt) := by
  have flag (fmt : List Byte) : (if peek fmt = chr '0' then fmt.tail else fmt) =
      fmt.drop (flagLength fmt) := by
    unfold flagLength
    split
    case isTrue => rw [List.drop_one]
    case isFalse => rfl
  unfold Scan.pass passSteps
  split
  case isTrue =>
      simp only [Scan.specifier, flag, parseWidth_eq, modifierLength]
      simp only [← List.drop_one, List.drop_drop]
      congr 1
      omega
  case isFalse => rw [List.drop_one]

theorem le_of_mem_widthReads {fmt : List Byte} {index place : ℕ} (member : place ∈ widthReads fmt index) :
    place ≤ index + (fmt.takeWhile isDigit).length := by
  induction fmt generalizing index with
  | nil => exact (List.mem_singleton.mp member).le
  | cons c fmt ih =>
      rw [widthReads] at member
      rw [List.takeWhile_cons]
      split at member
      case isTrue digit =>
          rw [if_pos digit, List.length_cons]
          rcases List.mem_cons.mp member with rfl | member
          · omega
          · have bound := ih member
            omega
      case isFalse => exact (List.mem_singleton.mp member).le.trans (Nat.le_add_right _ _)

/-- **A pass looks only at characters that it steps over.** -/
theorem lt_of_mem_passReads {fmt : List Byte} {index place : ℕ} (member : place ∈ passReads fmt index) :
    place < index + passSteps fmt := by
  unfold passReads at member
  unfold passSteps
  split at member
  case isTrue specifier =>
      rw [if_pos specifier]
      simp only [List.mem_append, List.mem_cons, List.not_mem_nil, or_false] at member
      rcases member with ((rfl | rfl) | width) | rfl
      · omega
      · omega
      · have bound := le_of_mem_widthReads width
        rw [modifierLength]
        omega
      · omega
  case isFalse literal =>
      rw [if_neg literal]
      rw [List.mem_singleton] at member
      omega

/-- The flag is a digit, so both together are the digits behind the `%`. -/
theorem modifierLength_append {digits : List Byte} {c : Byte} (rest : List Byte)
    (isDigits : ∀ d ∈ digits, isDigit d = true) (stops : isDigit c = false) :
    modifierLength (digits ++ c :: rest) = digits.length := by
  have width (digits : List Byte) (isDigits : ∀ d ∈ digits, isDigit d = true) :
      (digits ++ c :: rest).takeWhile isDigit = digits := by
    rw [List.takeWhile_append_of_pos isDigits, List.takeWhile_cons_of_neg (by simp [stops]),
      List.append_nil]
  cases digits with
  | nil =>
      have other : peek ([] ++ c :: rest) ≠ chr '0' := by
        intro same
        rw [show c = chr '0' from same] at stops
        exact absurd stops (by decide)
      rw [modifierLength, flagLength, if_neg other, List.drop_zero, width [] isDigits]
      rfl
  | cons d digits =>
      rw [modifierLength, flagLength]
      split
      case isTrue =>
          rw [List.cons_append, List.drop_one, List.tail_cons,
            width digits fun e member => isDigits e (List.mem_cons_of_mem d member), List.length_cons,
            Nat.add_comm]
      case isFalse => rw [List.drop_zero, width (d :: digits) isDigits, Nat.zero_add]

/-- A pass steps over one directive. -/
theorem passSteps_directive (directive : Directive) (rest : List Byte) :
    passSteps (directive.chars ++ rest) = directive.chars.length := by
  cases directive with
  | literal c plain =>
      have first : peek ([c] ++ rest) ≠ chr '%' := plain.2
      rw [Directive.chars, passSteps, if_neg first]
      rfl
  | specifier digits c complete =>
      have read : Directive.chars (.specifier digits c complete) ++ rest =
          chr '%' :: (digits ++ c :: rest) := by simp [Directive.chars]
      have first : peek (chr '%' :: (digits ++ c :: rest)) = chr '%' := rfl
      rw [read, passSteps, if_pos first, List.tail_cons,
        modifierLength_append rest complete.1 complete.2.1, Directive.chars, List.length_cons,
        List.length_append, List.length_singleton]
      omega

/-! ## Formats that are cut short -/

/-- The digits at the start of a list. -/
theorem exists_digits (fmt : List Byte) :
    ∃ digits, (∀ d ∈ digits, isDigit d = true) ∧
      (fmt = digits ∨ ∃ c rest, isDigit c = false ∧ fmt = digits ++ c :: rest) := by
  induction fmt with
  | nil => exact ⟨[], by simp, .inl rfl⟩
  | cons c fmt ih =>
      cases digit : isDigit c with
      | false => exact ⟨[], by simp, .inr ⟨c, fmt, digit, rfl⟩⟩
      | true =>
          obtain ⟨digits, isDigits, shape⟩ := ih
          refine ⟨c :: digits, by simpa [digit] using isDigits, ?_⟩
          rcases shape with rfl | ⟨e, rest, stops, rfl⟩
          · exact .inl rfl
          · exact .inr ⟨e, rest, stops, rfl⟩

/-- A sequence of directives, which may end inside a specifier. -/
def IsFormat (fmt : List Byte) : Prop :=
  ∃ directives, fmt = formatChars directives ∨
    ∃ digits, (∀ d ∈ digits, isDigit d = true) ∧ fmt = formatChars directives ++ chr '%' :: digits

theorem IsFormat.cons (directive : Directive) {rest : List Byte} (format : IsFormat rest) :
    IsFormat (directive.chars ++ rest) := by
  obtain ⟨directives, rfl | ⟨digits, isDigits, rfl⟩⟩ := format
  · exact ⟨directive :: directives, .inl (formatChars_cons directive directives).symm⟩
  · refine ⟨directive :: directives, .inr ⟨digits, isDigits, ?_⟩⟩
    rw [formatChars_cons, List.append_assoc]

/-- **Every string is a sequence of directives, or it ends inside a specifier.** -/
theorem isFormat_of_noNul (fmt : List Byte) (noNul : 0 ∉ fmt) : IsFormat fmt := by
  induction length : fmt.length using Nat.strong_induction_on generalizing fmt with
  | _ _ ih =>
      subst length
      cases fmt with
      | nil => exact ⟨[], .inl rfl⟩
      | cons c fmt =>
          rw [List.mem_cons, not_or] at noNul
          by_cases percent : c = chr '%'
          · subst percent
            obtain ⟨digits, isDigits, rfl | ⟨e, rest, stops, rfl⟩⟩ := exists_digits fmt
            · exact ⟨[], .inr ⟨fmt, isDigits, rfl⟩⟩
            · rw [List.mem_append, List.mem_cons, not_or, not_or] at noNul
              have nonzero : e ≠ 0 := Ne.symm noNul.2.2.1
              have shorter : rest.length < (chr '%' :: (digits ++ e :: rest)).length := by
                rw [List.length_cons, List.length_append, List.length_cons]
                omega
              have format := ih rest.length shorter rest noNul.2.2.2 rfl
              have read : chr '%' :: (digits ++ e :: rest) =
                  Directive.chars (.specifier digits e ⟨isDigits, stops, nonzero⟩) ++ rest := by
                simp [Directive.chars]
              rw [read]
              exact format.cons _
          · have format := ih fmt.length (Nat.lt_succ_self _) fmt noNul.2 rfl
            exact format.cons (.literal c ⟨Ne.symm noNul.1, percent⟩)

/-! ## Runs over directives -/

section Run

variable {limit : ℕ} (text : Strings) (tail : List Byte) (fuel : ℕ)

/-- The next pass looks at the first directive. -/
theorem scanReads_cons (directive : Directive) (directives : List Directive) (args : VaList)
    {out : Writer Byte} (room : out.next < limit) (index : ℕ) :
    scanReads limit text (fuel + 1) ⟨formatChars (directive :: directives) ++ tail, args, out⟩ index =
      index :: (passReads (formatChars (directive :: directives) ++ tail) index ++
        scanReads limit text fuel ⟨formatChars directives ++ tail, directive.nextArgs args,
          out.putAll (directive.emit text args (limit - out.next))⟩ (index + directive.chars.length)) := by
  have test := And.intro (peek_formatChars_cons tail directive directives) room
  rw [scanReads, if_pos test, formatChars_cons_append, Scan.pass_directive, passSteps_directive]

/-- A pass stays inside its directive. -/
theorem lt_of_mem_passReads_cons {directive : Directive} {directives : List Directive} {index place : ℕ}
    (member : place ∈ passReads (formatChars (directive :: directives) ++ tail) index) :
    place < index + directive.chars.length := by
  have bound := lt_of_mem_passReads member
  rwa [formatChars_cons_append, passSteps_directive] at bound

/-- **With room for all their texts, the loop goes through the directives to what is behind
them.** -/
theorem scan_directives_room (directives : List Directive) (args : VaList) (out : Writer Byte)
    (room : out.next + (renderAll text directives args).length < limit) (index : ℕ) :
    scanLoop limit text (directives.length + fuel) ⟨formatChars directives ++ tail, args, out⟩ =
        scanLoop limit text fuel
          ⟨tail, argsAfter directives args, out.putAll (renderAll text directives args)⟩ ∧
      ∃ early,
        scanReads limit text (directives.length + fuel) ⟨formatChars directives ++ tail, args, out⟩ index =
            early ++ scanReads limit text fuel
              ⟨tail, argsAfter directives args, out.putAll (renderAll text directives args)⟩
              (index + (formatChars directives).length) ∧
          ∀ place ∈ early, place < index + (formatChars directives).length := by
  induction directives generalizing args out index with
  | nil =>
      rw [List.length_nil, Nat.zero_add]
      exact ⟨rfl, [], rfl, by simp⟩
  | cons directive directives ih =>
      rw [renderAll, List.length_append] at room
      have here : out.next < limit := by omega
      have written : directive.emit text args (limit - out.next) = directive.render text args :=
        Directive.emit_of_le text args (by omega)
      have pass := scanLoop_cons text tail (directives.length + fuel) directive directives args here
      have reads := scanReads_cons text tail (directives.length + fuel) directive directives args here index
      rw [written] at pass reads
      have left : (out.putAll (directive.render text args)).next +
          (renderAll text directives (directive.nextArgs args)).length < limit := by
        rw [Writer.next_putAll]
        omega
      obtain ⟨rest, early, readsRest, bounds⟩ := ih (directive.nextArgs args) _ left
        (index + directive.chars.length)
      have count : (directive :: directives).length + fuel = directives.length + fuel + 1 := by
        rw [List.length_cons]
        omega
      rw [count, length_formatChars_cons, renderAll, Writer.putAll_append, ← Nat.add_assoc]
      refine ⟨pass.trans rest, ?_⟩
      refine ⟨index :: (passReads (formatChars (directive :: directives) ++ tail) index ++ early), ?_, ?_⟩
      · rw [reads, readsRest, List.cons_append, List.append_assoc]
        rfl
      · intro place member
        have positive := directive.length_chars_pos
        rcases List.mem_cons.mp member with rfl | member
        · omega
        · rcases List.mem_append.mp member with first | later
          · have bound := lt_of_mem_passReads_cons tail first
            omega
          · exact bounds place later

/-- **Without room for all their texts, the loop ends at a directive or right behind them.** -/
theorem scan_directives_full (directives : List Directive) (args : VaList) (out : Writer Byte)
    (full : limit ≤ out.next + (renderAll text directives args).length) (index : ℕ) :
    (∀ place ∈ scanReads limit text fuel ⟨formatChars directives ++ tail, args, out⟩ index,
        place ≤ index + (formatChars directives).length) ∧
      (directives.length ≤ fuel →
        limit ≤ (scanLoop limit text fuel ⟨formatChars directives ++ tail, args, out⟩).out.next) := by
  induction directives generalizing fuel args out index with
  | nil =>
      rw [renderAll, List.length_nil, Nat.add_zero] at full
      have stop (fmt : List Byte) : ¬ (peek fmt ≠ 0 ∧ out.next < limit) := fun test =>
        absurd test.2 (Nat.not_lt.mpr full)
      cases fuel with
      | zero => exact ⟨by simp [scanReads], fun _ => full⟩
      | succ fuel =>
          rw [scanReads, if_neg (stop _), scanLoop, if_neg (stop _)]
          exact ⟨fun place member => (List.mem_singleton.mp member).le, fun _ => full⟩
  | cons directive directives ih =>
      cases fuel with
      | zero => exact ⟨by simp [scanReads], fun enough => absurd enough (by simp)⟩
      | succ fuel =>
          by_cases room : out.next < limit
          · have pass := scanLoop_cons text tail fuel directive directives args room
            have reads := scanReads_cons text tail fuel directive directives args room index
            have left : limit ≤ (out.putAll (directive.emit text args (limit - out.next))).next +
                (renderAll text directives (directive.nextArgs args)).length := by
              rw [renderAll, List.length_append] at full
              rw [Writer.next_putAll, directive.length_emit]
              omega
            obtain ⟨bounds, ended⟩ := ih fuel (directive.nextArgs args) _ left
              (index + directive.chars.length)
            rw [pass, reads, length_formatChars_cons]
            refine ⟨fun place member => ?_, fun enough => ended (Nat.le_of_succ_le_succ enough)⟩
            rcases List.mem_cons.mp member with rfl | member
            · omega
            · rcases List.mem_append.mp member with first | later
              · have bound := lt_of_mem_passReads_cons tail first
                omega
              · have bound := bounds place later
                omega
          · have stop (fmt : List Byte) : ¬ (peek fmt ≠ 0 ∧ out.next < limit) := fun test => room test.2
            rw [scanReads, if_neg (stop _), scanLoop, if_neg (stop _)]
            refine ⟨fun place member => ?_, fun _ => Nat.le_of_not_lt room⟩
            rw [List.mem_singleton] at member
            omega

end Run

/-! ## The end of the format -/

theorem length_le_formatChars (directives : List Directive) :
    directives.length ≤ (formatChars directives).length := by
  induction directives with
  | nil => exact Nat.zero_le _
  | cons directive directives ih =>
      have positive := directive.length_chars_pos
      rw [length_formatChars_cons, List.length_cons]
      omega

/-- The formatter looks at no character behind the terminator of the format, and it stops at
the terminator unless the buffer is full before. -/
structure ReadsInside (text : Strings) (buf : ℕ → Byte) (size : ℕ) (fmt : CString) (rest : List Byte)
    (args : VaList) : Prop where
  looks : ∀ index ∈ formatReads text buf size (fmt.bytes ++ 0 :: rest) args, index ≤ fmt.bytes.length
  stops : (myVsnprintf text buf size (fmt.bytes ++ 0 :: rest) args).fmt = 0 :: rest ∨
    size - 1 ≤ (myVsnprintf text buf size (fmt.bytes ++ 0 :: rest) args).out.next

/-- The format ends inside a specifier, and the text before it leaves room. -/
def RunsOver (text : Strings) (room : ℕ) (fmt : List Byte) (args : VaList) : Prop :=
  ∃ directives digits, (∀ d ∈ digits, isDigit d = true) ∧
    fmt = formatChars directives ++ chr '%' :: digits ∧
      (renderAll text directives args).length < room

section End

variable (text : Strings) (buf : ℕ → Byte) {size : ℕ} (rest : List Byte) (args : VaList)

/-- There are more than enough passes for the directives. -/
theorem exists_passes (directives : List Directive) (tail : List Byte) :
    ∃ passes, (formatChars directives ++ tail).length = directives.length + passes ∧
      tail.length ≤ passes := by
  have enough := length_le_formatChars directives
  refine ⟨(formatChars directives).length - directives.length + tail.length, ?_, Nat.le_add_left _ _⟩
  rw [List.length_append]
  omega

/-- Where the buffer is full before the end of the directives, nothing behind them is
looked at. -/
theorem readsInside_of_full (fmt : CString) {directives : List Directive} {behind : List Byte}
    (shape : fmt.bytes = formatChars directives ++ behind)
    (full : size - 1 ≤ (renderAll text directives args).length) :
    ReadsInside text buf size fmt rest args := by
  have all : fmt.bytes ++ 0 :: rest = formatChars directives ++ (behind ++ 0 :: rest) := by
    rw [shape, List.append_assoc]
  have length : (formatChars directives).length ≤ fmt.bytes.length := by
    rw [shape, List.length_append]
    exact Nat.le_add_right _ _
  have run (fuel : ℕ) := scan_directives_full text (behind ++ 0 :: rest) fuel directives args
    ⟨buf, 0, []⟩ (Nat.le_trans full (Nat.le_add_left _ _)) 0
  constructor
  · intro index member
    rw [formatReads, all] at member
    have bound := (run _).1 index member
    omega
  · refine .inr ?_
    obtain ⟨passes, count, -⟩ := exists_passes directives (behind ++ 0 :: rest)
    rw [all]
    exact (run _).2 (by rw [count]; exact Nat.le_add_right _ _)

/-- A complete format is read up to its terminator. -/
theorem readsInside_of_complete (fmt : CString) {directives : List Directive}
    (complete : fmt.bytes = formatChars directives)
    (room : (renderAll text directives args).length < size - 1) :
    ReadsInside text buf size fmt rest args := by
  obtain ⟨passes, count, -⟩ := exists_passes directives (0 :: rest)
  have run (fuel : ℕ) := scan_directives_room text (0 :: rest) fuel directives args ⟨buf, 0, []⟩
    (by rwa [Nat.zero_add]) 0
  have stop (out : Writer Byte) : ¬ (peek (0 :: rest) ≠ 0 ∧ out.next < size - 1) := fun test => test.1 rfl
  constructor
  · intro index member
    obtain ⟨-, early, reads, bounds⟩ := run (passes + 1)
    rw [formatReads, complete, count, Nat.add_assoc, reads, scanReads, if_neg (stop _),
      List.mem_append, List.mem_singleton, ← complete] at member
    rcases member with before | last
    · have bound := bounds index before
      rw [← complete] at bound
      omega
    · omega
  · refine .inl ?_
    have ended : (scanLoop (size - 1) text passes ⟨0 :: rest, argsAfter directives args,
        Writer.putAll (renderAll text directives args) ⟨buf, 0, []⟩⟩).fmt = 0 :: rest := by
      cases passes with
      | zero => rfl
      | succ passes => rw [scanLoop, if_neg (stop _)]
    rw [← (run passes).1, ← count] at ended
    rw [complete]
    exact ended

/-- **A specifier that is cut short takes the loop past the terminator.** -/
theorem RunsOver.looksBehind {fmt : CString} (passed : RunsOver text (size - 1) fmt.bytes args) :
    fmt.bytes.length + 1 ∈ formatReads text buf size (fmt.bytes ++ 0 :: rest) args := by
  obtain ⟨directives, digits, isDigits, shape, room⟩ := passed
  have all : fmt.bytes ++ 0 :: rest = formatChars directives ++ (chr '%' :: (digits ++ 0 :: rest)) := by
    rw [shape, List.append_assoc, List.cons_append]
  have steps : passSteps (chr '%' :: (digits ++ 0 :: rest)) = digits.length + 2 := by
    have first : peek (chr '%' :: (digits ++ 0 :: rest)) = chr '%' := rfl
    rw [passSteps, if_pos first, List.tail_cons, modifierLength_append rest isDigits rfl]
    omega
  have length : fmt.bytes.length + 1 = 0 + (formatChars directives).length + (digits.length + 2) := by
    rw [shape, List.length_append, List.length_cons]
    omega
  obtain ⟨passes, count, enough⟩ := exists_passes directives (chr '%' :: (digits ++ 0 :: rest))
  obtain ⟨-, early, reads, -⟩ := scan_directives_room text (chr '%' :: (digits ++ 0 :: rest)) (passes + 1)
    directives args ⟨buf, 0, []⟩ (by rwa [Nat.zero_add]) 0
  have test : peek (chr '%' :: (digits ++ 0 :: rest)) ≠ 0 ∧
      (Writer.putAll (renderAll text directives args) ⟨buf, 0, []⟩).next < size - 1 := by
    refine ⟨show chr '%' ≠ 0 by decide, ?_⟩
    rwa [Writer.next_putAll, Nat.zero_add]
  rw [formatReads, all, count, Nat.add_assoc, reads, scanReads, if_pos test, steps, length]
  obtain ⟨more, rfl⟩ : ∃ more, passes = more + 1 := Nat.exists_eq_add_one.mpr (by
    rw [List.length_cons] at enough
    omega)
  refine List.mem_append_right _ (List.mem_cons_of_mem _ (List.mem_append_right _ ?_))
  rw [scanReads]
  exact List.mem_cons_self

/-- **The formatter reads behind its format exactly if a specifier that is cut short is
reached.** -/
theorem formatReads_inside_iff (fmt : CString) :
    ReadsInside text buf size fmt rest args ↔ ¬ RunsOver text (size - 1) fmt.bytes args := by
  constructor
  · intro inside passed
    have bound := inside.looks _ (passed.looksBehind text buf rest args)
    omega
  · intro stays
    obtain ⟨directives, complete | ⟨digits, isDigits, cut⟩⟩ := isFormat_of_noNul fmt.bytes fmt.noNul
    · by_cases full : size - 1 ≤ (renderAll text directives args).length
      · exact readsInside_of_full text buf rest args fmt
          (complete.trans (List.append_nil _).symm) full
      · exact readsInside_of_complete text buf rest args fmt complete (Nat.lt_of_not_le full)
    · refine readsInside_of_full text buf rest args fmt cut (Nat.le_of_not_lt fun room => ?_)
      exact stays ⟨directives, digits, isDigits, cut, room⟩

end End

/-- `"%"`. -/
def percentText : CString := ⟨[chr '%'], by decide⟩

/-- The character behind the terminator is looked at, whatever it is. -/
theorem formatReads_percentText :
    ¬ ReadsInside (fun _ => nullText) (fun _ => 0) 2 percentText [chr 'A'] fun _ => 0 := by
  rintro ⟨looks, -⟩
  exact absurd (looks 2 (by decide)) (by decide)

end KernelV.Console
