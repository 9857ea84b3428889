import KernelV.Console.Panik
import KernelV.Library.Records

/-!
# Reports

What the kernel reports on its console is made of plain text, counts, words and names. The text of
such a format is that of its parts (`textOf_partsFmt`), and its numbers can be read back from it, up
to a separator (`tells_count`, `tells_hex`) or by their length (`eq_of_fixedNumeral`).

A sequence of reports is logged as a whole (`Follows.logged_reported`).
-/

set_option autoImplicit false

namespace KernelV.Console

open Library Memory

/-! ## Numbers of a fixed length -/

/-- The last digits of a number. -/
def fixedNumeral (base : ℕ) : ℕ → ℕ → List Byte
  | 0, _ => []
  | digits + 1, n => fixedNumeral base digits (n / base) ++ [chr (n % base).digitChar]

theorem length_fixedNumeral (base digits n : ℕ) : (fixedNumeral base digits n).length = digits := by
  induction digits generalizing n with
  | zero => rfl
  | succ digits ih => rw [fixedNumeral, List.length_append, ih, List.length_singleton]

/-- A numeral with zeros before it. -/
theorem leftpad_numeral {base n : ℕ} (digits : ℕ) (radix : 1 < base) (small : n < base ^ (digits + 1)) :
    (numeral base n).leftpad (digits + 1) (chr '0') = fixedNumeral base (digits + 1) n := by
  have zero (digits : ℕ) : fixedNumeral base digits 0 = List.replicate digits (chr '0') := by
    induction digits with
    | zero => rfl
    | succ digits ih =>
        rw [fixedNumeral, Nat.zero_div, ih, List.replicate_succ', Nat.zero_mod]
        rfl
  induction digits generalizing n with
  | zero =>
      have digit : n < base := by simpa using small
      rw [numeral_of_lt digit, fixedNumeral, fixedNumeral, Nat.mod_eq_of_lt digit]
      rfl
  | succ digits ih =>
      by_cases digit : n < base
      · rw [numeral_of_lt digit, fixedNumeral, Nat.div_eq_of_lt digit, zero, Nat.mod_eq_of_lt digit]
        rfl
      · have before : n / base < base ^ (digits + 1) := by
          apply Nat.div_lt_of_lt_mul
          rwa [Nat.pow_succ'] at small
        rw [fixedNumeral, ← ih before, numeral_of_le radix (Nat.le_of_not_lt digit)]
        simp [List.leftpad]

/-- **Two numerals of a fixed length, one behind the other**, make the numeral of both numbers
together. -/
theorem fixedNumeral_add (base high low n : ℕ) :
    fixedNumeral base (high + low) n =
      fixedNumeral base high (n / base ^ low) ++ fixedNumeral base low n := by
  induction low generalizing n with
  | zero => simp [fixedNumeral]
  | succ low ih =>
      rw [← Nat.add_assoc, fixedNumeral, ih, fixedNumeral, List.append_assoc, Nat.div_div_eq_div_mul,
        Nat.pow_succ']

/-- Only the last digits count. -/
theorem fixedNumeral_mod (base digits n : ℕ) :
    fixedNumeral base digits (n % base ^ digits) = fixedNumeral base digits n := by
  induction digits generalizing n with
  | zero => rfl
  | succ digits ih =>
      have quotient : n % base ^ (digits + 1) / base = n / base % base ^ digits := by
        rw [Nat.pow_succ', Nat.mod_mul_right_div_self]
      have remainder : n % base ^ (digits + 1) % base = n % base :=
        Nat.mod_mod_of_dvd n (Dvd.intro_left _ (Nat.pow_succ ..).symm)
      rw [fixedNumeral, quotient, ih, remainder, fixedNumeral]

/-- Hexadecimal digits determine the number. -/
theorem eq_of_fixedNumeral {digits n m : ℕ} (small : n < 16 ^ digits) (small' : m < 16 ^ digits)
    (same : fixedNumeral 16 digits n = fixedNumeral 16 digits m) : n = m := by
  have digitChars : ∀ d < 16, ∀ e < 16, chr d.digitChar = chr e.digitChar → d = e := by decide
  induction digits generalizing n m with
  | zero => omega
  | succ digits ih =>
      rw [fixedNumeral, fixedNumeral] at same
      obtain ⟨before, last⟩ := List.append_inj' same rfl
      have quotients := ih (by omega) (by omega) before
      have remainders := digitChars _ (Nat.mod_lt n (by decide)) _ (Nat.mod_lt m (by decide))
        (List.cons.inj last).1
      omega

/-- The eight digits of a word. -/
theorem hexWord_eq (word : Word) :
    (numeral 16 word.toNat).leftpad 8 (chr '0') = fixedNumeral 16 8 word.toNat :=
  leftpad_numeral 7 (by decide) word.isLt

/-! ## Formats of plain text, counts, words and names -/

/-- A part of the formats above. -/
inductive Part where
  | plain (chars : List Byte) (isPlain : ∀ c ∈ chars, c ≠ 0 ∧ c ≠ chr '%')
  | count
  | word
  | hex
  | name

namespace Part

theorem complete_count : (∀ d ∈ ([] : List Byte), isDigit d = true) ∧ isDigit (chr 'u') = false ∧
    chr 'u' ≠ 0 := by decide

theorem complete_word : (∀ d ∈ [chr '0', chr '8'], isDigit d = true) ∧ isDigit (chr 'x') = false ∧
    chr 'x' ≠ 0 := by decide

theorem complete_hex : (∀ d ∈ ([] : List Byte), isDigit d = true) ∧ isDigit (chr 'x') = false ∧
    chr 'x' ≠ 0 := by decide

theorem complete_name : (∀ d ∈ ([] : List Byte), isDigit d = true) ∧ isDigit (chr 's') = false ∧
    chr 's' ≠ 0 := by decide

/-- How a part is written: `%u`, `%08x`, `%x`, `%s`. -/
def directives : Part → List Directive
  | plain chars isPlain => chars.pmap Directive.literal isPlain
  | count => [.specifier [] (chr 'u') complete_count]
  | word => [.specifier [chr '0', chr '8'] (chr 'x') complete_word]
  | hex => [.specifier [] (chr 'x') complete_hex]
  | name => [.specifier [] (chr 's') complete_name]

/-- The text of a part for the next argument. -/
def shown (text : Strings) (arg : Word) : Part → List Byte
  | plain chars _ => chars
  | count => numeral 10 arg.toNat
  | word => (numeral 16 arg.toNat).leftpad 8 (chr '0')
  | hex => numeral 16 arg.toNat
  | name => (text arg).bytes

/-- The argument is a count, or the address of a string. -/
def Takes (text : Strings) (arg : Word) : Part → Prop
  | plain _ _ => True
  | count => arg.toNat < 2 ^ 16
  | word => True
  | hex => True
  | name => arg ≠ 0 ∧ (text arg).bytes.length < 2 ^ 31

def nextArgs (args : VaList) : Part → VaList
  | plain _ _ => args
  | _ => args.next

end Part

/-- How a format is written. -/
def partsFmt (parts : List Part) : List Byte := formatChars (parts.flatMap Part.directives) ++ [0]

/-- The text of a format. -/
def shownAll (text : Strings) : List Part → VaList → List Byte
  | [], _ => []
  | part :: parts, args => part.shown text (args 0) ++ shownAll text parts (part.nextArgs args)

def TakesAll (text : Strings) : List Part → VaList → Prop
  | [], _ => True
  | part :: parts, args => part.Takes text (args 0) ∧ TakesAll text parts (part.nextArgs args)

section Parts

variable (text : Strings)

theorem Part.not_isPointer (part : Part) : ∀ directive ∈ part.directives, ¬ directive.IsPointer := by
  intro directive member
  cases part with
  | plain chars isPlain =>
      obtain ⟨c, inside, rfl⟩ := List.mem_pmap.mp member
      rintro ⟨digits, complete, same⟩
      cases same
  | count =>
      rw [List.mem_singleton.mp member]
      exact Padding.not_isPointer_directive ⟨[], by decide, by decide⟩ (by decide) (by decide)
  | word =>
      rw [List.mem_singleton.mp member]
      exact Padding.not_isPointer_directive ⟨[chr '0', chr '8'], by decide, by decide⟩ (by decide)
        (by decide)
  | hex =>
      rw [List.mem_singleton.mp member]
      exact Padding.not_isPointer_directive ⟨[], by decide, by decide⟩ (by decide) (by decide)
  | name =>
      rw [List.mem_singleton.mp member]
      exact Padding.not_isPointer_directive ⟨[], by decide, by decide⟩ (by decide) (by decide)

/-- **A part has its text.** -/
theorem renderAll_part {part : Part} {args : VaList} (takes : part.Takes text (args 0))
    (directives : List Directive) :
    renderAll text (part.directives ++ directives) args =
      part.shown text (args 0) ++ renderAll text directives (part.nextArgs args) := by
  have unpadded (chars : List Byte) :
      (⟨[], by decide, by decide⟩ : Padding).pad chars = chars := by
    simp [Padding.pad, Padding.width, decimalValue]
  cases part with
  | plain chars isPlain => exact renderAll_literals text chars isPlain directives args
  | count =>
      have small : (args 0).toNat < 2 ^ 16 := takes
      have positive : (args 0).toNat < 2 ^ 31 := by omega
      have digits : (numeral 10 (args 0).toNat).length ≤ 5 :=
        length_numeral_le (by decide) (by decide) (by omega)
      have padded := Padding.replicate_toPadWidth ⟨[], by decide, by decide⟩
        (numeral 10 (args 0).toNat) (by omega)
      rw [unpadded, ← reverse_unsignedTmp positive, List.length_reverse] at padded
      rw [Part.shown, ← reverse_unsignedTmp positive]
      exact congrArg (· ++ renderAll text directives args.next) padded
  | word =>
      have digits : (numeral 16 (args 0).toNat).length ≤ 8 :=
        length_numeral_le (by decide) (by decide) (args 0).isLt
      have padded := Padding.replicate_toPadWidth ⟨[chr '0', chr '8'], by decide, by decide⟩
        (numeral 16 (args 0).toNat) (by omega)
      rw [← reverse_hexTmp (by decide : 8 ≤ 12), List.length_reverse] at padded
      rw [Part.shown, ← reverse_hexTmp (by decide : 8 ≤ 12)]
      exact congrArg (· ++ renderAll text directives args.next) padded
  | hex =>
      have digits : (numeral 16 (args 0).toNat).length ≤ 8 :=
        length_numeral_le (by decide) (by decide) (args 0).isLt
      have padded := Padding.replicate_toPadWidth ⟨[], by decide, by decide⟩
        (numeral 16 (args 0).toNat) (by omega)
      rw [unpadded, ← reverse_hexTmp (by decide : 8 ≤ 12), List.length_reverse] at padded
      rw [Part.shown, ← reverse_hexTmp (by decide : 8 ≤ 12)]
      exact congrArg (· ++ renderAll text directives args.next) padded
  | name =>
      obtain ⟨nonNull, short⟩ := takes
      have string : stringArg text (args 0) = (text (args 0)).bytes := if_neg nonNull
      have padded := Padding.replicate_toPadWidthString ⟨[], by decide, by decide⟩
        (text (args 0)).bytes short
      rw [unpadded, ← string] at padded
      rw [Part.shown, ← string]
      exact congrArg (· ++ renderAll text directives args.next) padded

theorem renderAll_parts {parts : List Part} {args : VaList} (takes : TakesAll text parts args) :
    renderAll text (parts.flatMap Part.directives) args = shownAll text parts args := by
  induction parts generalizing args with
  | nil => rfl
  | cons part parts ih =>
      rw [List.flatMap_cons, renderAll_part text takes.1, ih takes.2, shownAll]

/-- **`my_vsnprintf` writes the text of the format**, if it fits. -/
theorem textOf_partsFmt {parts : List Part} {args : VaList} (takes : TakesAll text parts args) {size : ℕ}
    (fits : (shownAll text parts args).length ≤ size - 1) :
    textOf text size (partsFmt parts) args = shownAll text parts args := by
  have noPointer : ∀ directive ∈ parts.flatMap Part.directives, ¬ directive.IsPointer := by
    intro directive member
    obtain ⟨part, -, inside⟩ := List.mem_flatMap.mp member
    exact part.not_isPointer directive inside
  rw [partsFmt, textOf, formatted_of_noPointer _ _ _ noPointer, renderAll_parts text takes,
    List.take_of_length_le fits]

end Parts

/-! ## Reading numbers back -/

/-- Digits are no separators. -/
theorem not_mem_numeral {separator : Byte} (noDigit : isDigit separator = false) (n : ℕ) :
    separator ∉ numeral 10 n := by
  intro member
  rw [isDigit_of_mem_numeral member] at noDigit
  cases noDigit

/-- A count up to a separator. -/
theorem tells_count {separator : Byte} (noDigit : isDigit separator = false) :
    Tells (fun count => numeral 10 count ++ [separator]) id := by
  apply Tells.separated (not_mem_numeral noDigit)
  intro count count' same
  have values := congrArg decimalValue same
  rwa [decimalValue_numeral, decimalValue_numeral] at values

/-- The characters of a hexadecimal numeral. -/
def hexChars : List Byte := ascii "0123456789abcdef"

theorem mem_hexChars {n : ℕ} {c : Byte} (member : c ∈ numeral 16 n) : c ∈ hexChars := by
  have digits : ∀ d < 16, chr d.digitChar ∈ hexChars := by decide
  induction n using Nat.strong_induction_on with
  | _ n ih =>
      by_cases single : n < 16
      · rw [numeral_of_lt single, List.mem_singleton] at member
        rw [member]
        exact digits n single
      · rw [numeral_of_le (by decide) (Nat.le_of_not_lt single), List.mem_append] at member
        rcases member with before | last
        · exact ih (n / 16) (by omega) before
        · rw [List.mem_singleton.mp last]
          exact digits _ (Nat.mod_lt n (by decide))

theorem not_mem_hex {separator : Byte} (noDigit : separator ∉ hexChars) (n : ℕ) :
    separator ∉ numeral 16 n := fun member => noDigit (mem_hexChars member)

theorem hex_injective {word word' : Word} (same : numeral 16 word.toNat = numeral 16 word'.toNat) :
    word = word' := by
  have padded : fixedNumeral 16 8 word.toNat = fixedNumeral 16 8 word'.toNat := by
    rw [← hexWord_eq, ← hexWord_eq, same]
  exact BitVec.eq_of_toNat_eq (eq_of_fixedNumeral word.isLt word'.isLt padded)

/-- A word up to a separator. -/
theorem tells_hex {separator : Byte} (noDigit : separator ∉ hexChars) :
    Tells (fun word : Word => numeral 16 word.toNat ++ [separator]) id :=
  .separated (fun word => not_mem_hex noDigit word.toNat) fun _ _ same => hex_injective same

/-! ## Calls that report -/

/-- A call that prints a text without a level. -/
def Puts (call : ConsoleCall) (chars : List Byte) : Prop :=
  ∀ t : Transcript, t.perform call = .ok { t with output := t.output.say chars [⟨chars, whiteOnBlack⟩] }

theorem puts_printk {site : Site} {fmt chars : List Byte} {args : VaList} (plain : isLeveled fmt = false)
    (text : ∀ message, textOf (site.strings message) logBufSize fmt args = chars) :
    Puts (.printk site fmt args) chars := by
  intro t
  have whole : actualFmt fmt = fmt := if_neg (by rw [plain]; decide)
  have level : levelOf fmt = none := if_neg (by rw [plain]; decide)
  simp only [Transcript.perform, whole, level, text, Output.sayLeveled]

theorem logged_foldlM {calls : List ConsoleCall} {texts : List (List Byte)}
    (puts : List.Forall₂ Puts calls texts) (t : Transcript) :
    ∃ last, calls.foldlM Transcript.perform t = .ok last ∧
      last.output.logged = t.output.logged ++ texts.flatten := by
  induction puts generalizing t with
  | nil => exact ⟨t, rfl, (List.append_nil _).symm⟩
  | @cons call chars calls texts puts rest ih =>
      obtain ⟨last, ran, logged⟩ := ih { t with output := t.output.say chars [⟨chars, whiteOnBlack⟩] }
      refine ⟨last, ?_, ?_⟩
      · rw [List.foldlM_cons, puts t]
        exact ran
      · rw [logged, List.flatten_cons, Output.say, List.append_assoc]

/-- **Reports are logged as a whole**, and the console goes on. -/
theorem Follows.logged_reported {t : Transcript} {s : Reporter} (follows : Follows t s)
    {calls : List ConsoleCall} {texts : List (List Byte)} (puts : List.Forall₂ Puts calls texts) :
    ∃ last s', calls.foldlM Reporter.perform s = .ok s' ∧
      calls.foldlM Transcript.perform t = .ok last ∧ Follows last s' ∧
      last.output.logged = t.output.logged ++ texts.flatten := by
  obtain ⟨last, ran, logged⟩ := logged_foldlM puts t
  have lockstep := InLockstep.foldlM (fun _ _ call follows => Follows.perform follows call) follows calls
  rw [ran] at lockstep
  cases console : calls.foldlM Reporter.perform s with
  | error stop =>
      rw [console] at lockstep
      cases lockstep
  | ok s' =>
      rw [console] at lockstep
      cases lockstep with
      | goesOn related => exact ⟨last, s', rfl, ran, related, logged⟩

end KernelV.Console
