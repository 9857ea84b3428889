import Mathlib.Algebra.Group.Nat.Defs
import Mathlib.Data.Nat.Notation

/-!
# Rounding words with masks

Clearing the low `k` bits of a word rounds it down to a multiple of `2 ^ k`.
The mask is written the way C code writes it, as the complement of
`2 ^ k - 1`.

A word with two fields, one inside a mask and one outside of it, is the `join` of
the two under the mask. Fields that were cut out of a word by shifts are put together
again by shifts (`toNat_field`, `toNat_shiftLeft_or`).
-/

set_option autoImplicit false

namespace KernelV.Library

variable {w : ℕ}

/-- The mask of everything above the low `k` bits. -/
def highMask (w k : ℕ) : BitVec w := ~~~BitVec.ofNat w (2 ^ k - 1)

theorem getLsbD_highMask (k : ℕ) {position : ℕ} (small : position < w) :
    (highMask w k).getLsbD position = decide (k ≤ position) := by
  simp only [highMask, BitVec.getLsbD_not, BitVec.getLsbD_ofNat, Nat.testBit_two_pow_sub_one, small,
    decide_true, Bool.true_and, ← decide_not, Nat.not_lt]

/-- Masking the low bits off is a shift down and up again. -/
theorem and_highMask (word : BitVec w) (k : ℕ) : word &&& highMask w k = (word >>> k) <<< k := by
  apply BitVec.eq_of_getLsbD_eq
  intro position small
  rw [BitVec.getLsbD_and, getLsbD_highMask k small, BitVec.getLsbD_shiftLeft,
    BitVec.getLsbD_ushiftRight]
  by_cases above : k ≤ position
  · have back : k + (position - k) = position := by omega
    simp [above, small, back]
  · have below : position < k := by omega
    simp [above, below]

/-- **Masking the low bits off rounds down.** -/
theorem toNat_and_highMask (word : BitVec w) (k : ℕ) :
    (word &&& highMask w k).toNat = word.toNat / 2 ^ k * 2 ^ k := by
  have below : word.toNat / 2 ^ k * 2 ^ k < 2 ^ w :=
    Nat.lt_of_le_of_lt (Nat.div_mul_le_self _ _) word.isLt
  rw [and_highMask, BitVec.toNat_shiftLeft, BitVec.toNat_ushiftRight, Nat.shiftRight_eq_div_pow,
    Nat.shiftLeft_eq, Nat.mod_eq_of_lt below]

/-- A multiple of `2 ^ k` survives the mask. -/
theorem and_highMask_of_dvd {word : BitVec w} {k : ℕ} (aligned : 2 ^ k ∣ word.toNat) :
    word &&& highMask w k = word := by
  apply BitVec.eq_of_toNat_eq
  rw [toNat_and_highMask, Nat.div_mul_cancel aligned]

/-! ## Words with two fields -/

/-- The bits of `inside` under the mask and the bits of `outside` elsewhere. -/
def join (mask inside outside : BitVec w) : BitVec w := (inside &&& mask) ||| (outside &&& ~~~mask)

theorem getLsbD_join (mask inside outside : BitVec w) {position : ℕ} (small : position < w) :
    (join mask inside outside).getLsbD position =
      bif mask.getLsbD position then inside.getLsbD position else outside.getLsbD position := by
  rw [join, BitVec.getLsbD_or, BitVec.getLsbD_and, BitVec.getLsbD_and, BitVec.getLsbD_not]
  cases mask.getLsbD position with
  | true => simp
  | false => simp [small]

/-- The field under the mask. -/
theorem join_and_mask (mask inside outside : BitVec w) :
    join mask inside outside &&& mask = inside &&& mask := by
  apply BitVec.eq_of_getLsbD_eq
  intro position small
  rw [BitVec.getLsbD_and, BitVec.getLsbD_and, getLsbD_join mask inside outside small]
  cases mask.getLsbD position with
  | true => rfl
  | false => simp

/-- Bits outside of the mask. -/
theorem join_and_of_disjoint {mask bits : BitVec w} (disjoint : bits &&& mask = 0)
    (inside outside : BitVec w) : join mask inside outside &&& bits = outside &&& bits := by
  apply BitVec.eq_of_getLsbD_eq
  intro position small
  have apart : (bits.getLsbD position && mask.getLsbD position) = false := by
    rw [← BitVec.getLsbD_and, disjoint]
    exact BitVec.getLsbD_zero
  rw [BitVec.getLsbD_and, BitVec.getLsbD_and, getLsbD_join mask inside outside small]
  cases masked : mask.getLsbD position with
  | true =>
      rw [masked, Bool.and_true] at apart
      rw [apart, Bool.and_false, Bool.and_false]
  | false => rfl

/-- A word is the join of its own fields. -/
theorem join_self (mask word : BitVec w) : join mask word word = word := by
  apply BitVec.eq_of_getLsbD_eq
  intro position small
  rw [getLsbD_join mask word word small, Bool.cond_self]

/-! ## Fields of a word -/

/-- A field cut out of a word. -/
theorem toNat_field (word : BitVec w) (place width : ℕ) {mask : BitVec w}
    (low : mask.toNat = 2 ^ width - 1) :
    ((word >>> place &&& mask).setWidth width).toNat = word.toNat / 2 ^ place % 2 ^ width := by
  rw [BitVec.toNat_setWidth, BitVec.toNat_and, BitVec.toNat_ushiftRight, Nat.shiftRight_eq_div_pow, low,
    Nat.and_two_pow_sub_one_eq_mod, Nat.mod_mod]

/-- The lowest field of a word. -/
theorem toNat_lowField (word : BitVec w) (width : ℕ) {mask : BitVec w}
    (low : mask.toNat = 2 ^ width - 1) :
    ((word &&& mask).setWidth width).toNat = word.toNat % 2 ^ width := by
  have field := toNat_field word 0 width low
  rw [BitVec.ushiftRight_zero, Nat.pow_zero, Nat.div_one] at field
  exact field

/-- Two fields put together. -/
theorem toNat_shiftLeft_or {high low : BitVec w} {place : ℕ} (small : low.toNat < 2 ^ place)
    (fits : high.toNat * 2 ^ place < 2 ^ w) :
    (high <<< place ||| low).toNat = high.toNat * 2 ^ place + low.toNat := by
  rw [BitVec.toNat_or, BitVec.toNat_shiftLeft, Nat.shiftLeft_eq, Nat.mod_eq_of_lt fits, ← Nat.shiftLeft_eq,
    ← Nat.shiftLeft_add_eq_or_of_lt small, Nat.shiftLeft_eq]

end KernelV.Library
