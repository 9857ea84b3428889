import KernelV.Console.Format

/-!
# Digit loops and padding

Every number is converted by the same loop: digits from the last one on into a small array,
and then the array backwards. As long as the array is long enough the result is the usual
numeral of the value (`reverse_tmpDigits`), whose base and digits are those of the quotient
and the digit function. The arrays are long enough for a word, and none of the loops writes
past the end of its array (`length_tmpDigits_le`).

The number of pad characters is the width less the length, or none (`passes_toPadWidth`), as
long as both fit into an `int`.
-/

set_option autoImplicit false

namespace KernelV.Console

open Library Memory

/-! ## Digits -/

/-- The numeral of a number, in lower case. -/
def numeral (base n : ℕ) : List Byte := (Nat.toDigits base n).map chr

theorem length_numeral_pos (base n : ℕ) : 0 < (numeral base n).length := by
  rw [numeral, List.length_map]
  exact Nat.length_toDigits_pos

theorem numeral_of_lt {base n : ℕ} (small : n < base) : numeral base n = [chr n.digitChar] := by
  rw [numeral, Nat.toDigits_of_lt_base small, List.map_singleton]

theorem numeral_of_le {base n : ℕ} (radix : 1 < base) (large : base ≤ n) :
    numeral base n = numeral base (n / base) ++ [chr (n % base).digitChar] := by
  rw [numeral, Nat.toDigits_of_base_le radix large, List.map_append, List.map_singleton, numeral]

/-- The last digit of a numeral. -/
theorem getLast?_numeral {base n : ℕ} (radix : 1 < base) :
    (numeral base n).getLast? = some (chr (n % base).digitChar) := by
  by_cases small : n < base
  · rw [numeral_of_lt small, Nat.mod_eq_of_lt small]
    rfl
  · rw [numeral_of_le radix (Nat.le_of_not_lt small), List.getLast?_append]
    rfl

/-- A number of few digits. -/
theorem length_numeral_le {base n digits : ℕ} (radix : 1 < base) (some' : 0 < digits)
    (small : n < base ^ digits) : (numeral base n).length ≤ digits := by
  rw [numeral, List.length_map]
  exact (Nat.length_toDigits_le_iff radix some').mpr small

theorem length_tmpDigits_le (digit : Word → Byte) (quotient : Word → Word) (room : ℕ) (val : Word) :
    (tmpDigits digit quotient room val).length ≤ room := by
  induction room generalizing val with
  | zero => exact le_rfl
  | succ room ih =>
      rw [tmpDigits, List.length_cons]
      split
      case isTrue => exact Nat.succ_le_succ (Nat.zero_le _)
      case isFalse => exact Nat.succ_le_succ (ih _)

/-- The sign has its own test for the end of the array. -/
theorem length_decimalTmp_le (num : Word) : (decimalTmp num).length ≤ 12 := by
  unfold decimalTmp
  dsimp only
  have bound := length_tmpDigits_le (fun val => (0x30 + val % 10).setWidth 8) (· / 10) 12
    (if num.slt 0 then -num else num)
  generalize tmpDigits _ _ 12 _ = tmp at bound ⊢
  split
  case isTrue negative =>
      rw [List.length_append, List.length_singleton]
      exact negative.2
  case isFalse => exact bound

/-- **The digit loop, read backwards, is the numeral.** -/
theorem reverse_tmpDigits {digit : Word → Byte} {quotient : Word → Word} {base bound : ℕ}
    (radix : 1 < base) (digits : ∀ val, val.toNat ≤ bound → digit val = chr (val.toNat % base).digitChar)
    (quotients : ∀ val, val.toNat ≤ bound → (quotient val).toNat = val.toNat / base) {room : ℕ}
    {val : Word} (low : val.toNat ≤ bound) (fits : val.toNat < base ^ (room + 1)) :
    (tmpDigits digit quotient (room + 1) val).reverse = numeral base val.toNat := by
  induction room generalizing val with
  | zero =>
      rw [Nat.zero_add, Nat.pow_one] at fits
      have ended : (if quotient val = 0 then [] else tmpDigits digit quotient 0 (quotient val)) = [] := by
        split
        case isTrue => rfl
        case isFalse => rfl
      rw [tmpDigits, ended, List.reverse_singleton, digits val low, Nat.mod_eq_of_lt fits,
        numeral_of_lt fits]
  | succ room ih =>
      have next := quotients val low
      rw [tmpDigits, digits val low]
      split
      case isTrue last =>
          rw [last] at next
          have small : val.toNat < base := by
            by_contra large
            exact (Nat.div_pos (Nat.le_of_not_lt large) (by omega)).ne next
          rw [List.reverse_singleton, Nat.mod_eq_of_lt small, numeral_of_lt small]
      case isFalse more =>
          have large : base ≤ val.toNat := by
            by_contra small
            rw [Nat.div_eq_of_lt (Nat.lt_of_not_le small)] at next
            exact more (BitVec.eq_of_toNat_eq next)
          have shorter : (quotient val).toNat ≤ bound := by
            rw [next]
            exact (Nat.div_le_self _ _).trans low
          have fitsNext : (quotient val).toNat < base ^ (room + 1) := by
            rw [next]
            exact Nat.div_lt_of_lt_mul (by rwa [← Nat.pow_succ'])
          rw [List.reverse_cons, ih shorter fitsNext, next, numeral_of_le radix large]

theorem umod_eq_ofNat (val base : Word) : val % base = BitVec.ofNat 32 (val.toNat % base.toNat) := by
  have small : val.toNat % base.toNat < 2 ^ 32 := (Nat.mod_le _ _).trans_lt val.isLt
  apply BitVec.eq_of_toNat_eq
  rw [BitVec.toNat_umod, BitVec.toNat_ofNat, Nat.mod_eq_of_lt small]

/-- The characters of the digits below ten. -/
theorem decimalDigit_eq (val : Word) :
    (0x30 + val % 10).setWidth 8 = chr (val.toNat % 10).digitChar := by
  have digits : ∀ d < 10, (0x30 + BitVec.ofNat 32 d).setWidth 8 = chr d.digitChar := by decide
  rw [umod_eq_ofNat]
  exact digits _ (Nat.mod_lt _ (by decide))

theorem hexDigit_eq (num : Word) : hexDigit num = chr (num.toNat % 16).digitChar := by
  have digits : ∀ d < 16, (if BitVec.ofNat 32 d < (10 : Word) then (0x30 + BitVec.ofNat 32 d).setWidth 8
      else (0x61 + BitVec.ofNat 32 d - 10).setWidth 8) = chr d.digitChar := by decide
  rw [hexDigit, umod_eq_ofNat]
  exact digits _ (Nat.mod_lt _ (by decide))

theorem toNat_div_ten (val : Word) : (val / 10).toNat = val.toNat / 10 := BitVec.toNat_udiv

theorem toNat_div_sixteen (val : Word) : (val / 16).toNat = val.toNat / 16 := BitVec.toNat_udiv

/-- `%x` and `%p` write the hexadecimal numeral, in an array of eight or more. -/
theorem reverse_hexTmp {room : ℕ} (enough : 8 ≤ room) (num : Word) :
    (hexTmp room num).reverse = numeral 16 num.toNat := by
  rw [hexTmp]
  split
  case isTrue zero =>
      subst zero
      rfl
  case isFalse =>
      obtain ⟨more, rfl⟩ : ∃ more, room = more + 1 := Nat.exists_eq_add_one.mpr (by omega)
      refine reverse_tmpDigits (by decide) (fun val _ => hexDigit_eq val)
        (fun val _ => toNat_div_sixteen val) le_rfl (num.isLt.trans_le ?_)
      calc 2 ^ 32 = 16 ^ 8 := by decide
        _ ≤ 16 ^ (more + 1) := Nat.pow_le_pow_right (by decide) enough

theorem msb_of_lt {val : Word} (low : val.toNat < 2 ^ 31) : val.msb = false := by
  rw [BitVec.msb_eq_false_iff_two_mul_lt]
  omega

/-- `%u` writes the decimal numeral of what is positive as an `int`. -/
theorem reverse_unsignedTmp {num : Word} (positive : num.toNat < 2 ^ 31) :
    (unsignedTmp num).reverse = numeral 10 num.toNat := by
  have ten : (10 : Word).msb = false := by decide
  have below {val : Word} (low : val.toNat ≤ num.toNat) : val.msb = false := msb_of_lt (by omega)
  refine reverse_tmpDigits (by decide) (fun val low => ?_) (fun val low => ?_) le_rfl
    (positive.trans (by decide))
  · rw [BitVec.srem_eq, below low, ten]
    exact decimalDigit_eq val
  · rw [BitVec.sdiv_eq, below low, ten]
    exact toNat_div_ten val

/-- The magnitude of an `int`. -/
theorem toNat_magnitude (num : Word) :
    (if num.slt 0 then -num else num).toNat = num.toInt.natAbs := by
  have value := BitVec.toInt_eq_toNat_cond num
  have bound := num.isLt
  have sign : num.slt 0 = decide (num.toInt < 0) := BitVec.slt_eq_decide
  rw [sign]
  split
  case isTrue negative =>
      rw [decide_eq_true_iff] at negative
      rw [BitVec.toNat_neg]
      split at value <;> omega
  case isFalse nonneg =>
      rw [decide_eq_true_iff] at nonneg
      split at value <;> omega

/-- The sign of a number. -/
def sign (n : ℤ) : List Byte := if n < 0 then [chr '-'] else []

/-- `%d` writes the sign and the decimal numeral of the magnitude. -/
theorem reverse_decimalTmp (num : Word) :
    (decimalTmp num).reverse = sign num.toInt ++ numeral 10 num.toInt.natAbs := by
  have magnitude := toNat_magnitude num
  have negative : num.slt 0 = decide (num.toInt < 0) := BitVec.slt_eq_decide
  have bound : num.toInt.natAbs < 10 ^ 10 := by
    rw [← magnitude]
    exact (BitVec.isLt _).trans (by decide)
  have digits : (tmpDigits (fun val => (0x30 + val % 10).setWidth 8) (· / 10) 12
      (if num.slt 0 then -num else num)).reverse = numeral 10 num.toInt.natAbs := by
    rw [← magnitude]
    refine reverse_tmpDigits (by decide) (fun val _ => decimalDigit_eq val)
      (fun val _ => toNat_div_ten val) le_rfl ?_
    rw [magnitude]
    exact bound.trans (by decide)
  have short : (tmpDigits (fun val => (0x30 + val % 10).setWidth 8) (· / 10) 12
      (if num.slt 0 then -num else num)).length < 12 := by
    rw [← List.length_reverse, digits]
    exact (length_numeral_le (by decide) (by decide) bound).trans_lt (by decide)
  unfold decimalTmp
  dsimp only
  generalize tmpDigits _ _ 12 _ = tmp at digits short ⊢
  simp only [short, and_true]
  split
  case isTrue isNegative =>
      rw [negative, decide_eq_true_iff] at isNegative
      rw [List.reverse_append, digits, sign, if_pos isNegative]
      rfl
  case isFalse nonneg =>
      rw [negative, decide_eq_true_iff] at nonneg
      rw [digits, sign, if_neg nonneg, List.nil_append]

/-! ## Padding -/

/-- A value with one more digit. -/
def appendDigit (value : ℕ) (d : Byte) : ℕ := value * 10 + (d.toNat - 48)

/-- The value of a sequence of digits. -/
def decimalValue (digits : List Byte) : ℕ := digits.foldl appendDigit 0

theorem le_foldl_appendDigit (digits : List Byte) (value : ℕ) :
    value ≤ digits.foldl appendDigit value := by
  induction digits generalizing value with
  | nil => exact le_rfl
  | cons d digits ih =>
      have step : value ≤ appendDigit value d := by
        rw [appendDigit]
        omega
      exact step.trans (ih _)

theorem toNat_addDigit {padWidth : Word} {d : Byte} (digit : isDigit d = true)
    (small : appendDigit padWidth.toNat d < 2 ^ 32) :
    (addDigit padWidth d).toNat = appendDigit padWidth.toNat d := by
  have above : 48 ≤ d.toNat := by
    simp only [isDigit, Bool.and_eq_true, decide_eq_true_iff, BitVec.le_def] at digit
    exact digit.1
  have below := d.isLt
  rw [appendDigit] at small ⊢
  rw [addDigit]
  bv_omega

theorem toNat_foldl_addDigit {digits : List Byte} (isDigits : ∀ d ∈ digits, isDigit d = true)
    {padWidth : Word} (small : digits.foldl appendDigit padWidth.toNat < 2 ^ 32) :
    (digits.foldl addDigit padWidth).toNat = digits.foldl appendDigit padWidth.toNat := by
  induction digits generalizing padWidth with
  | nil => rfl
  | cons d digits ih =>
      rw [List.foldl_cons] at small
      have first := toNat_addDigit (isDigits d List.mem_cons_self)
        ((le_foldl_appendDigit digits _).trans_lt small)
      rw [← first] at small
      rw [List.foldl_cons, List.foldl_cons, ← first]
      exact ih (fun e member => isDigits e (List.mem_cons_of_mem d member)) small

/-- **The width that is read is the value of its digits**, if it fits into a word. -/
theorem toNat_widthOf {digits : List Byte} (isDigits : ∀ d ∈ digits, isDigit d = true)
    (small : decimalValue digits < 2 ^ 32) : (widthOf digits).toNat = decimalValue digits :=
  @toNat_foldl_addDigit digits isDigits 0 small

/-- A word below the sign bit is the same number as an `int`. -/
theorem toInt_of_lt {word : Word} (small : word.toNat < 2 ^ 31) : word.toInt = word.toNat := by
  have value := BitVec.toInt_eq_toNat_cond word
  split at value
  case isTrue => exact value
  case isFalse negative => omega

/-- A width that fits into an `int`, less a length that does. -/
theorem toInt_sub_ofNat {padWidth : Word} (small : padWidth.toNat < 2 ^ 31) {len : ℕ}
    (short : len < 2 ^ 31) :
    (padWidth - BitVec.ofNat 32 len).toInt = (padWidth.toNat : ℤ) - len := by
  have value := BitVec.toInt_eq_toNat_cond (padWidth - BitVec.ofNat 32 len)
  have length : (BitVec.ofNat 32 len).toNat = len := Nat.mod_eq_of_lt (by omega)
  rw [BitVec.toNat_sub, length] at value
  split at value <;> omega

/-- **The padding is what is missing to the width.** -/
theorem passes_toPadWidth {padWidth : Word} (small : padWidth.toNat < 2 ^ 31) {len : ℕ}
    (short : len < 2 ^ 31) : passes (toPadWidth padWidth len) = padWidth.toNat - len := by
  have difference := toInt_sub_ofNat small short
  have negative : (padWidth - BitVec.ofNat 32 len).slt 0 =
      decide ((padWidth - BitVec.ofNat 32 len).toInt < 0) := BitVec.slt_eq_decide
  have zero : passes 0 = 0 := rfl
  simp only [toPadWidth, negative, decide_eq_true_iff]
  split
  case isTrue longer =>
      rw [zero]
      omega
  case isFalse =>
      rw [passes, difference]
      omega

/-- The padding of a string is computed with a test in place of the sign. -/
theorem passes_toPadWidthString {padWidth : Word} (small : padWidth.toNat < 2 ^ 31) {len : ℕ}
    (short : len < 2 ^ 31) : passes (toPadWidthString padWidth len) = padWidth.toNat - len := by
  have difference := toInt_sub_ofNat small short
  have unsigned : (BitVec.ofNat 32 len).toNat = len := Nat.mod_eq_of_lt (by omega)
  have length : (BitVec.ofNat 32 len).toInt = len := by
    rw [toInt_of_lt (by rwa [unsigned]), unsigned]
  have width : padWidth.toInt = padWidth.toNat := toInt_of_lt small
  have zero : passes 0 = 0 := rfl
  simp only [toPadWidthString, BitVec.slt_eq_decide, decide_eq_true_iff, length, width]
  split
  case isTrue longer =>
      rw [zero]
      omega
  case isFalse =>
      rw [passes, difference]
      omega

end KernelV.Console
