import KernelV.Console.Truncation

/-!
# What formatted text should look like

The text of a format of literal characters, `%%`, `%s`, `%c` and `%x`, said without digit
loops and buffers: every piece has its text, padded on the left, and the texts follow each
other. The formatter writes the first characters of it, as many as there is room for
(`formatted_pieces`).

The decimal conversions are right for part of the numbers. `%u` takes its argument for an
`int` and writes the remainders of a negative one, which are no digits, so it is right exactly
below `2 ^ 31` (`printsUnsigned_iff`). `%d` pads on the left of the sign, which is wrong
exactly where zeros come before a minus sign (`printsSigned_iff`).
-/

set_option autoImplicit false

namespace KernelV.Console

open Library Memory

/-! ## Texts -/

/-- The digits behind a `%`: a `0` at the start is the flag, and all of them together are the
width, which fits into an `int`. -/
structure Padding where
  digits : List Byte
  isDigits : ∀ d ∈ digits, isDigit d = true
  small : decimalValue digits < 2 ^ 31

namespace Padding

def width (padding : Padding) : ℕ := decimalValue padding.digits

def padChar (padding : Padding) : Byte := padCharOf padding.digits

/-- A text padded to the width. -/
def pad (padding : Padding) (chars : List Byte) : List Byte :=
  chars.leftpad padding.width padding.padChar

/-- A specifier with the flag and the width. -/
def directive (padding : Padding) (c : Byte) (letter : isDigit c = false ∧ c ≠ 0) : Directive :=
  .specifier padding.digits c ⟨padding.isDigits, letter⟩

variable (padding : Padding)

theorem padChar_cases : padding.padChar = chr '0' ∨ padding.padChar = chr ' ' := by
  unfold padChar padCharOf
  split
  case isTrue => exact .inl rfl
  case isFalse => exact .inr rfl

theorem toNat_widthOf : (widthOf padding.digits).toNat = padding.width :=
  Console.toNat_widthOf padding.isDigits (padding.small.trans (by decide))

theorem toNat_widthOf_lt : (widthOf padding.digits).toNat < 2 ^ 31 := by
  rw [padding.toNat_widthOf]
  exact padding.small

/-- The padding of a conversion. -/
theorem replicate_toPadWidth (chars : List Byte) (short : chars.length < 2 ^ 31) :
    List.replicate (passes (toPadWidth (widthOf padding.digits) chars.length))
        (padCharOf padding.digits) ++ chars = padding.pad chars := by
  rw [passes_toPadWidth padding.toNat_widthOf_lt short, padding.toNat_widthOf]
  rfl

theorem replicate_toPadWidthString (chars : List Byte) (short : chars.length < 2 ^ 31) :
    List.replicate (passes (toPadWidthString (widthOf padding.digits) chars.length))
        (padCharOf padding.digits) ++ chars = padding.pad chars := by
  rw [passes_toPadWidthString padding.toNat_widthOf_lt short, padding.toNat_widthOf]
  rfl

theorem not_isPointer_directive {c : Byte} (letter : isDigit c = false ∧ c ≠ 0) (other : c ≠ chr 'p') :
    ¬ (padding.directive c letter).IsPointer := by
  rintro ⟨digits, complete, same⟩
  injection same with _ isLetter
  exact other isLetter

end Padding

/-- Without pointers a format is cut off from its text. -/
theorem formatted_of_noPointer (text : Strings) (buf : ℕ → Byte) (size : ℕ) {directives : List Directive}
    (noPointer : ∀ directive ∈ directives, ¬ directive.IsPointer) (rest : List Byte) (args : VaList) :
    formatted text buf size (formatChars directives ++ 0 :: rest) args =
      (renderAll text directives args).take (size - 1) := by
  rw [formatted_directives, emitAll_eq_take_iff]
  rintro ⟨before, pointer, after, rfl, isPointer, -⟩
  exact noPointer pointer (List.mem_append_right before List.mem_cons_self) isPointer

/-- A string that is an object: its length fits into an `int`. -/
structure StringObject extends CString where
  short : bytes.length < 2 ^ 31

/-- A part of a format without decimal numbers and pointers. -/
inductive Piece where
  | literal (c : Byte) (plain : c ≠ 0 ∧ c ≠ chr '%')
  | percent
  | string (padding : Padding)
  | char (padding : Padding)
  | hex (padding : Padding)

namespace Piece

/-- How a piece is written. -/
def directive : Piece → Directive
  | literal c plain => .literal c plain
  | percent => .specifier [] (chr '%') (by decide)
  | string padding => padding.directive (chr 's') (by decide)
  | char padding => padding.directive (chr 'c') (by decide)
  | hex padding => padding.directive (chr 'x') (by decide)

/-- The text of a piece for the next argument. -/
def reference (text : Word → StringObject) (arg : Word) : Piece → List Byte
  | literal c _ => [c]
  | percent => [chr '%']
  | string padding =>
      padding.pad (if arg = 0 then "(null)".toList.map chr else (text arg).bytes)
  | char padding => padding.pad [arg.setWidth 8]
  | hex padding => padding.pad (numeral 16 arg.toNat)

/-- The arguments behind a piece. -/
def nextArgs (args : VaList) : Piece → VaList
  | literal _ _ => args
  | percent => args
  | _ => args.next

end Piece

/-- The text of a format. -/
def referenceAll (text : Word → StringObject) : List Piece → VaList → List Byte
  | [], _ => []
  | piece :: pieces, args =>
      piece.reference text (args 0) ++ referenceAll text pieces (piece.nextArgs args)

section Pieces

variable (text : Word → StringObject)

/-- The strings, without their lengths. -/
def stringsOf : Strings := fun ptr => (text ptr).toCString

theorem Piece.render_directive (args : VaList) (piece : Piece) :
    piece.directive.render (stringsOf text) args = piece.reference text (args 0) := by
  cases piece with
  | literal c plain => rfl
  | percent => rfl
  | string padding =>
      have short : (stringArg (stringsOf text) (args 0)).length < 2 ^ 31 := by
        unfold stringArg
        split
        case isTrue => decide
        case isFalse => exact (text (args 0)).short
      exact padding.replicate_toPadWidthString _ short
  | char padding =>
      have padded := padding.replicate_toPadWidth [(args 0).setWidth 8] (Nat.one_lt_two_pow (by decide))
      rwa [List.length_singleton] at padded
  | hex padding =>
      have digits := reverse_hexTmp (show 8 ≤ 12 by decide) (args 0)
      have short : (hexTmp 12 (args 0)).reverse.length < 2 ^ 31 := by
        rw [digits]
        have bound : (numeral 16 (args 0).toNat).length ≤ 8 :=
          length_numeral_le (by decide) (by decide) (args 0).isLt
        omega
      have padded := padding.replicate_toPadWidth _ short
      rw [List.length_reverse] at padded
      rw [Piece.reference, ← digits]
      exact padded

theorem Piece.nextArgs_directive (args : VaList) (piece : Piece) :
    piece.directive.nextArgs args = piece.nextArgs args := by
  cases piece with
  | literal c plain => rfl
  | percent => rfl
  | string padding => rfl
  | char padding => rfl
  | hex padding => rfl

theorem Piece.not_isPointer (piece : Piece) : ¬ piece.directive.IsPointer := by
  cases piece with
  | literal c plain =>
      rintro ⟨digits, complete, same⟩
      injection same
  | percent =>
      rintro ⟨digits, complete, same⟩
      injection same with _ letter
      exact absurd letter (by decide)
  | string padding => exact padding.not_isPointer_directive (by decide) (by decide)
  | char padding => exact padding.not_isPointer_directive (by decide) (by decide)
  | hex padding => exact padding.not_isPointer_directive (by decide) (by decide)

theorem renderAll_pieces (pieces : List Piece) (args : VaList) :
    renderAll (stringsOf text) (pieces.map Piece.directive) args = referenceAll text pieces args := by
  induction pieces generalizing args with
  | nil => rfl
  | cons piece pieces ih =>
      rw [List.map_cons, renderAll, piece.render_directive, piece.nextArgs_directive, ih, referenceAll]

/-- **The formatter writes the first characters of the text**, as many as the buffer has room
for besides the terminator. -/
theorem formatted_pieces (buf : ℕ → Byte) (size : ℕ) (pieces : List Piece) (rest : List Byte)
    (args : VaList) :
    formatted (stringsOf text) buf size (formatChars (pieces.map Piece.directive) ++ 0 :: rest) args =
      (referenceAll text pieces args).take (size - 1) := by
  have noPointer : ∀ directive ∈ pieces.map Piece.directive, ¬ directive.IsPointer := by
    intro directive member
    obtain ⟨piece, -, rfl⟩ := List.mem_map.mp member
    exact piece.not_isPointer
  rw [formatted_of_noPointer _ buf size noPointer, renderAll_pieces]

end Pieces

/-! ## Reading numbers -/

/-- The digits of a numeral are digits. -/
theorem isDigit_of_mem_numeral {n : ℕ} {c : Byte} (member : c ∈ numeral 10 n) : isDigit c = true := by
  have digits : ∀ d < 10, isDigit (chr d.digitChar) = true := by decide
  induction n using Nat.strong_induction_on with
  | _ n ih =>
      by_cases single : n < 10
      · rw [numeral_of_lt single, List.mem_singleton] at member
        rw [member]
        exact digits n single
      · rw [numeral_of_le (by decide) (Nat.le_of_not_lt single), List.mem_append,
          List.mem_singleton] at member
        rcases member with before | rfl
        · exact ih (n / 10) (by omega) before
        · exact digits _ (Nat.mod_lt n (by decide))

theorem isDigit_of_mem_zeros (zeros : ℕ) {n : ℕ} :
    ∀ c ∈ List.replicate zeros (chr '0') ++ numeral 10 n, isDigit c = true := by
  intro c member
  rcases List.mem_append.mp member with zero | digit
  · rw [List.eq_of_mem_replicate zero]
    decide
  · exact isDigit_of_mem_numeral digit

/-- **A numeral has its number as its value.** -/
theorem decimalValue_numeral (n : ℕ) : decimalValue (numeral 10 n) = n := by
  have digits : ∀ d < 10, (chr d.digitChar).toNat - 48 = d := by decide
  induction n using Nat.strong_induction_on with
  | _ n ih =>
      by_cases single : n < 10
      · rw [numeral_of_lt single, decimalValue, List.foldl_cons, List.foldl_nil, appendDigit,
          digits n single, Nat.zero_mul, Nat.zero_add]
      · have before := ih (n / 10) (by omega)
        rw [decimalValue] at before
        rw [numeral_of_le (by decide) (Nat.le_of_not_lt single), decimalValue, List.foldl_append, before,
          List.foldl_cons, List.foldl_nil, appendDigit, digits _ (Nat.mod_lt n (by decide))]
        omega

/-- Zeros at the start do not count. -/
theorem decimalValue_replicate_append (count : ℕ) (chars : List Byte) :
    decimalValue (List.replicate count (chr '0') ++ chars) = decimalValue chars := by
  induction count with
  | zero => rfl
  | succ count ih => exact ih

/-- A text without the spaces at its start. -/
def skipSpaces (chars : List Byte) : List Byte := chars.dropWhile (· = chr ' ')

theorem skipSpaces_replicate_append (count : ℕ) (chars : List Byte) :
    skipSpaces (List.replicate count (chr ' ') ++ chars) = skipSpaces chars := by
  induction count with
  | zero => rfl
  | succ count ih => exact ih

theorem skipSpaces_cons {c : Byte} (visible : c ≠ chr ' ') (chars : List Byte) :
    skipSpaces (c :: chars) = c :: chars := by
  rw [skipSpaces, List.dropWhile_cons_of_neg (by simpa using visible)]

/-- Digits are not skipped. -/
theorem skipSpaces_of_digits {chars : List Byte} (isDigits : ∀ c ∈ chars, isDigit c = true) :
    skipSpaces chars = chars := by
  cases chars with
  | nil => rfl
  | cons c chars =>
      refine skipSpaces_cons ?_ chars
      rintro rfl
      exact absurd (isDigits _ List.mem_cons_self) (by decide)

/-- An unsigned number, behind spaces. -/
def readUnsigned (chars : List Byte) : ℕ := decimalValue (skipSpaces chars)

/-- A number with an optional minus sign, behind spaces. -/
def readSigned (chars : List Byte) : ℤ :=
  match skipSpaces chars with
  | [] => 0
  | c :: chars => if c = chr '-' then -decimalValue chars else decimalValue (c :: chars)

/-- A padded numeral is read back, whatever it is padded with. -/
theorem readUnsigned_pad (padding : Padding) (n : ℕ) : readUnsigned (padding.pad (numeral 10 n)) = n := by
  rw [readUnsigned, Padding.pad, List.leftpad]
  rcases padding.padChar_cases with zero | space
  · rw [zero, skipSpaces_of_digits (isDigit_of_mem_zeros _), decimalValue_replicate_append,
      decimalValue_numeral]
  · rw [space, skipSpaces_replicate_append, skipSpaces_of_digits fun _ => isDigit_of_mem_numeral,
      decimalValue_numeral]

/-! ## `%u` -/

/-- The text of a single conversion, cut off. -/
theorem formatted_conversion (text : Strings) (buf : ℕ → Byte) (size : ℕ) (padding : Padding) {c : Byte}
    (letter : isDigit c = false ∧ c ≠ 0) (notPointer : c ≠ chr 'p') (rest : List Byte) (args : VaList) :
    formatted text buf size (formatChars [padding.directive c letter] ++ 0 :: rest) args =
      ((padding.directive c letter).render text args).take (size - 1) := by
  have noPointer : ∀ directive ∈ [padding.directive c letter], ¬ directive.IsPointer := by
    intro directive member
    rw [List.mem_singleton.mp member]
    exact padding.not_isPointer_directive letter notPointer
  rw [formatted_of_noPointer text buf size noPointer, renderAll, renderAll, List.append_nil]

/-- In every buffer that is large enough, `%u` writes the padded numeral of the argument, which
reads back as the argument. -/
def PrintsUnsigned (text : Strings) (padding : Padding) (args : VaList) : Prop :=
  ∀ (buf : ℕ → Byte) (size : ℕ) (rest : List Byte),
    (padding.pad (numeral 10 (args 0).toNat)).length < size →
      formatted text buf size
          (formatChars [padding.directive (chr 'u') (by decide)] ++ 0 :: rest) args =
        padding.pad (numeral 10 (args 0).toNat) ∧
      readUnsigned (formatted text buf size
        (formatChars [padding.directive (chr 'u') (by decide)] ++ 0 :: rest) args) = (args 0).toNat

/-- The last character that `%u` writes is the remainder of the argument as an `int`. -/
theorem getLast?_render_unsigned (text : Strings) (padding : Padding) (args : VaList) :
    ((padding.directive (chr 'u') (by decide)).render text args).getLast? =
      some ((0x30 + (args 0).srem 10).setWidth 8) := by
  have rendered : (padding.directive (chr 'u') (by decide)).render text args =
      List.replicate (passes (toPadWidth (widthOf padding.digits) (unsignedTmp (args 0)).length))
        (padCharOf padding.digits) ++ (unsignedTmp (args 0)).reverse := rfl
  rw [rendered, unsignedTmp, tmpDigits, List.reverse_cons, ← List.append_assoc, List.getLast?_append]
  rfl

/-- A negative remainder does not make the digit of the unsigned number. -/
theorem negative_digit_ne {num : Word} (negative : 2 ^ 31 ≤ num.toNat) :
    (0x30 + num.srem 10).setWidth 8 ≠ chr (num.toNat % 10).digitChar := by
  intro same
  have bound := num.isLt
  -- As an `int` the number is the negative of `2 ^ 32 - num`.
  have remainder : (num.srem 10).toInt = -(((2 ^ 32 - num.toNat) % 10 : ℕ) : ℤ) := by
    have value := BitVec.toInt_eq_toNat_cond num
    rw [if_neg (by omega)] at value
    have negated : num.toInt = -((2 ^ 32 - num.toNat : ℕ) : ℤ) := by omega
    rw [BitVec.toInt_srem, negated, Int.neg_tmod]
    rfl
  have code := BitVec.toInt_eq_toNat_cond (num.srem 10)
  have small := (num.srem 10).isLt
  have digits : ∀ d < 10, (chr d.digitChar).toNat = 48 + d := by decide
  have written := congrArg BitVec.toNat same
  rw [digits _ (Nat.mod_lt _ (by decide)), BitVec.toNat_setWidth, BitVec.toNat_add] at written
  change (48 + (num.srem 10).toNat) % 2 ^ 32 % 2 ^ 8 = _ at written
  split at code <;> omega

/-- **`%u` is right exactly for the numbers that are positive as an `int`.** -/
theorem printsUnsigned_iff (text : Strings) (padding : Padding) (args : VaList) :
    PrintsUnsigned text padding args ↔ (args 0).toNat < 2 ^ 31 := by
  have notPointer : chr 'u' ≠ chr 'p' := by decide
  constructor
  · intro prints
    by_contra large
    -- A buffer for both texts, the right one and the one that is written.
    have room : (padding.pad (numeral 10 (args 0).toNat)).length <
        ((padding.directive (chr 'u') (by decide)).render text args).length +
          (padding.pad (numeral 10 (args 0).toNat)).length + 1 := by omega
    have same := (prints (fun _ => 0) _ [] room).1
    rw [formatted_conversion text _ _ padding _ notPointer, List.take_of_length_le (by omega)] at same
    have last := congrArg List.getLast? same
    rw [getLast?_render_unsigned, Padding.pad, List.leftpad, List.getLast?_append,
      getLast?_numeral (by decide)] at last
    exact negative_digit_ne (Nat.le_of_not_lt large) (Option.some.inj last)
  · intro positive buf size rest room
    have digits := reverse_unsignedTmp positive
    have short : (unsignedTmp (args 0)).reverse.length < 2 ^ 31 := by
      rw [List.length_reverse]
      exact (length_tmpDigits_le _ _ 12 _).trans_lt (by decide)
    have padded := padding.replicate_toPadWidth _ short
    rw [List.length_reverse, digits] at padded
    have rendered : (padding.directive (chr 'u') (by decide)).render text args =
        padding.pad (numeral 10 (args 0).toNat) := by
      rw [← padded, ← digits]
      rfl
    rw [formatted_conversion text _ _ padding _ notPointer, rendered, List.take_of_length_le (by omega)]
    exact ⟨rfl, readUnsigned_pad padding _⟩

/-- `%u` of `2 ^ 32 - 1` writes a slash, the character before `0`. -/
theorem printsUnsigned_allOnes :
    ¬ PrintsUnsigned (fun _ => nullText) ⟨[], by decide, by decide⟩ fun _ => 0xFFFFFFFF := by
  intro prints
  have same := (prints (fun _ => 0) 11 [] (by decide)).1
  rw [formatted_directives] at same
  exact absurd same (by decide)

/-! ## `%d` -/

/-- The text of a signed number: the sign, and the padding before it or, for zeros, behind it. -/
def Padding.padSigned (padding : Padding) (n : ℤ) : List Byte :=
  if padding.padChar = chr '0' then
    sign n ++ (numeral 10 n.natAbs).leftpad (padding.width - (sign n).length) (chr '0')
  else (sign n ++ numeral 10 n.natAbs).leftpad padding.width (chr ' ')

/-- In every buffer that is large enough, `%d` writes the padded numeral of the argument, which
reads back as the argument. -/
def PrintsSigned (text : Strings) (padding : Padding) (args : VaList) : Prop :=
  ∀ (buf : ℕ → Byte) (size : ℕ) (rest : List Byte),
    (padding.padSigned (args 0).toInt).length < size →
      formatted text buf size
          (formatChars [padding.directive (chr 'd') (by decide)] ++ 0 :: rest) args =
        padding.padSigned (args 0).toInt ∧
      readSigned (formatted text buf size
        (formatChars [padding.directive (chr 'd') (by decide)] ++ 0 :: rest) args) = (args 0).toInt

/-- Zeros come before the sign. -/
def PadsSign (padding : Padding) (n : ℤ) : Prop :=
  padding.padChar = chr '0' ∧ n < 0 ∧ (numeral 10 n.natAbs).length + 1 < padding.width

/-- What `%d` writes: the padding comes before the sign in any case. -/
theorem render_decimal (text : Strings) (padding : Padding) (args : VaList) :
    (padding.directive (chr 'd') (by decide)).render text args =
      padding.pad (sign (args 0).toInt ++ numeral 10 (args 0).toInt.natAbs) := by
  have digits := reverse_decimalTmp (args 0)
  have short : (decimalTmp (args 0)).reverse.length < 2 ^ 31 := by
    rw [List.length_reverse]
    exact (length_decimalTmp_le _).trans_lt (by decide)
  have padded := padding.replicate_toPadWidth _ short
  rw [List.length_reverse, digits] at padded
  rw [← padded, ← digits]
  rfl

/-- **The padding is right unless zeros come before a minus sign.** -/
theorem Padding.pad_eq_padSigned_iff (padding : Padding) (n : ℤ) :
    padding.pad (sign n ++ numeral 10 n.natAbs) = padding.padSigned n ↔ ¬ PadsSign padding n := by
  rcases padding.padChar_cases with zero | space
  · rw [Padding.padSigned, if_pos zero, Padding.pad, zero, sign, PadsSign]
    by_cases negative : n < 0
    · simp only [negative, if_true, zero, true_and, List.leftpad, List.length_cons, List.length_nil,
        List.singleton_append]
      generalize numeral 10 n.natAbs = digits
      by_cases wide : digits.length + 1 < padding.width
      · -- The first characters are a zero and the sign.
        refine iff_of_false (fun same => ?_) (not_not.mpr wide)
        obtain ⟨more, count⟩ : ∃ more, padding.width - (digits.length + 1) = more + 1 :=
          Nat.exists_eq_add_one.mpr (by omega)
        rw [count, List.replicate_succ, List.cons_append] at same
        exact absurd (List.cons.inj same).1 (by decide)
      · have none : padding.width - (digits.length + 1) = 0 := by omega
        have none' : padding.width - (0 + 1) - digits.length = 0 := by omega
        refine iff_of_true ?_ wide
        rw [none, none']
        rfl
    · refine iff_of_true ?_ fun pads => negative pads.2.1
      rw [if_neg negative]
      rfl
  · have other : padding.padChar ≠ chr '0' := by
      rw [space]
      decide
    rw [Padding.padSigned, if_neg other, Padding.pad, space]
    exact iff_of_true rfl fun pads => other pads.1

/-- A signed number is read back. -/
theorem readSigned_padSigned (padding : Padding) (n : ℤ) : readSigned (padding.padSigned n) = n := by
  -- Behind the spaces comes the sign, or digits with the value of the number.
  have skipped : ∃ zeros, skipSpaces (padding.padSigned n) =
      sign n ++ (List.replicate zeros (chr '0') ++ numeral 10 n.natAbs) := by
    have visible (zeros : ℕ) : skipSpaces (sign n ++ (List.replicate zeros (chr '0') ++
        numeral 10 n.natAbs)) = sign n ++ (List.replicate zeros (chr '0') ++ numeral 10 n.natAbs) := by
      rw [sign]
      split
      case isTrue => exact skipSpaces_cons (by decide) _
      case isFalse => exact skipSpaces_of_digits (isDigit_of_mem_zeros zeros)
    unfold Padding.padSigned
    split
    case isTrue => exact ⟨_, visible _⟩
    case isFalse =>
        refine ⟨0, ?_⟩
        rw [List.leftpad, skipSpaces_replicate_append]
        exact visible 0
  obtain ⟨zeros, shape⟩ := skipped
  have value := decimalValue_replicate_append zeros (numeral 10 n.natAbs)
  rw [decimalValue_numeral] at value
  by_cases negative : n < 0
  · rw [sign, if_pos negative, List.singleton_append] at shape
    rw [readSigned, shape]
    change (if chr '-' = chr '-' then -(decimalValue _ : ℤ) else _) = n
    rw [if_pos rfl, value]
    omega
  · have isDigits := @isDigit_of_mem_zeros zeros n.natAbs
    rw [sign, if_neg negative, List.nil_append] at shape
    rw [readSigned, shape]
    generalize List.replicate zeros (chr '0') ++ numeral 10 n.natAbs = chars at isDigits value
    cases chars with
    | nil =>
        change 0 = n.natAbs at value
        change 0 = n
        omega
    | cons c chars =>
        have digit : c ≠ chr '-' := by
          rintro rfl
          exact absurd (isDigits _ List.mem_cons_self) (by decide)
        change (if c = chr '-' then _ else (decimalValue (c :: chars) : ℤ)) = n
        rw [if_neg digit, value]
        omega

/-- **`%d` is right exactly where no zeros come before a minus sign.** -/
theorem printsSigned_iff (text : Strings) (padding : Padding) (args : VaList) :
    PrintsSigned text padding args ↔ ¬ PadsSign padding (args 0).toInt := by
  have notPointer : chr 'd' ≠ chr 'p' := by decide
  constructor
  · intro prints
    rw [← padding.pad_eq_padSigned_iff]
    -- A buffer for both texts, the right one and the one that is written.
    have room : (padding.padSigned (args 0).toInt).length <
        ((padding.directive (chr 'd') (by decide)).render text args).length +
          (padding.padSigned (args 0).toInt).length + 1 := by omega
    have same := (prints (fun _ => 0) _ [] room).1
    rwa [formatted_conversion text _ _ padding _ notPointer, List.take_of_length_le (by omega),
      render_decimal] at same
  · intro right buf size rest room
    rw [formatted_conversion text _ _ padding _ notPointer, render_decimal,
      (padding.pad_eq_padSigned_iff _).mpr right, List.take_of_length_le (by omega)]
    exact ⟨rfl, readSigned_padSigned padding _⟩

/-- `%05d` of `-42` is `00-42`. -/
theorem printsSigned_negative :
    ¬ PrintsSigned (fun _ => nullText) ⟨[chr '0', chr '5'], by decide, by decide⟩ fun _ => -42 := by
  intro prints
  have same := (prints (fun _ => 0) 6 [] (by decide)).1
  rw [formatted_directives] at same
  exact absurd same (by decide)

end KernelV.Console
