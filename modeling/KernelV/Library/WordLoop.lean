import Mathlib.Data.Nat.ModEq

/-!
# Counting loops over machine words

The loop `for (addr = start; addr < limit; addr += step) body` over words of a
fixed width. The addition wraps around, so the loop need not end: the word may
step over `limit` at the top of the range and come back at the bottom. The loop
is therefore run with a budget of tests, and its result is an `Option`.

* A loop that ends has run its body over the first words of the orbit of
  `start`, and some budget larger than their number suffices
  (`wordLoop_eq_some_iff`).
* When the step divides the number of words, the words met all leave the same
  remainder. If `limit` does not lie above the largest word with that remainder, or
  nothing has to be visited at all, the loop ends: it does not wrap, and it visits
  the words `start`, `start + step`, … below `limit` in order (`wordLoop_eq_foldl`).
  No other loop ends (`eq_foldl_of_wordLoop`).
-/

set_option autoImplicit false

namespace KernelV.Library

universe u

variable {σ : Type u} {w : ℕ}

/-- `for (addr = start; addr < limit; addr += step) body`, given up after `fuel`
tests of the condition. -/
def wordLoop (step limit : BitVec w) (body : BitVec w → σ → σ) :
    ℕ → BitVec w → σ → Option σ
  | 0, _, _ => none
  | fuel + 1, addr, state =>
      if addr < limit then wordLoop step limit body fuel (addr + step) (body addr state)
      else some state

/-- The first words of the orbit of a word under `+ step`. -/
def visited (step : BitVec w) : ℕ → BitVec w → List (BitVec w)
  | 0, _ => []
  | count + 1, addr => addr :: visited step count (addr + step)

/-- The word reached after a number of steps. -/
def wordAfter (step : BitVec w) : ℕ → BitVec w → BitVec w
  | 0, addr => addr
  | count + 1, addr => wordAfter step count (addr + step)

/-- The loop leaves after `count` passes: every earlier test succeeds and the
next one fails. -/
def LeavesAfter (step limit start : BitVec w) (count : ℕ) : Prop :=
  (∀ addr ∈ visited step count start, addr < limit) ∧ ¬ wordAfter step count start < limit

/-! ## What a loop that ends has done -/

/-- **A loop ends with the body run over the words visited, given a larger
budget than their number.** -/
theorem wordLoop_eq_some_iff (step limit : BitVec w) (body : BitVec w → σ → σ) (fuel : ℕ)
    (start : BitVec w) (state result : σ) :
    wordLoop step limit body fuel start state = some result ↔
      ∃ count < fuel, LeavesAfter step limit start count ∧
        (visited step count start).foldl (fun s addr => body addr s) state = result := by
  induction fuel generalizing start state with
  | zero => simp [wordLoop]
  | succ fuel ih =>
      rw [wordLoop]
      split
      · rename_i below
        rw [ih]
        constructor
        · rintro ⟨count, bound, ⟨earlier, later⟩, rfl⟩
          refine ⟨count + 1, by omega, ⟨?_, later⟩, rfl⟩
          intro addr member
          rcases List.mem_cons.mp member with rfl | member
          · exact below
          · exact earlier addr member
        · rintro ⟨count, bound, ⟨earlier, later⟩, rfl⟩
          cases count with
          | zero => exact absurd below later
          | succ count =>
              refine ⟨count, by omega, ⟨fun addr member => ?_, later⟩, rfl⟩
              exact earlier addr (List.mem_cons_of_mem _ member)
      · rename_i notBelow
        constructor
        · rintro ⟨rfl⟩
          exact ⟨0, by omega, ⟨by simp [visited], notBelow⟩, rfl⟩
        · rintro ⟨count, -, ⟨earlier, -⟩, rfl⟩
          cases count with
          | zero => rfl
          | succ count => exact absurd (earlier start (by simp [visited])) notBelow

/-- Two budgets that suffice give the same result. -/
theorem LeavesAfter.unique {step limit start : BitVec w} {first second : ℕ}
    (left : LeavesAfter step limit start first) (right : LeavesAfter step limit start second) :
    first = second := by
  induction first generalizing start second with
  | zero =>
      cases second with
      | zero => rfl
      | succ second => exact absurd (right.1 start (by simp [visited])) left.2
  | succ first ih =>
      cases second with
      | zero => exact absurd (left.1 start (by simp [visited])) right.2
      | succ second =>
          refine congrArg (· + 1) (ih ⟨?_, left.2⟩ ⟨?_, right.2⟩)
          · exact fun addr member => left.1 addr (List.mem_cons_of_mem _ member)
          · exact fun addr member => right.1 addr (List.mem_cons_of_mem _ member)

/-! ## Steps that divide the number of words -/

section Divides

variable {step : BitVec w}

/-- Words of the orbit keep the remainder of the first one. -/
theorem wordAfter_mod (divides : step.toNat ∣ 2 ^ w) (count : ℕ) (start : BitVec w) :
    (wordAfter step count start).toNat % step.toNat = start.toNat % step.toNat := by
  induction count generalizing start with
  | zero => rfl
  | succ count ih =>
      rw [wordAfter, ih, BitVec.toNat_add, Nat.mod_mod_of_dvd _ divides, Nat.add_mod_right]

/-- Before the orbit wraps around, it is the arithmetic progression. -/
theorem toNat_wordAfter (count : ℕ) (start : BitVec w)
    (fits : start.toNat + count * step.toNat < 2 ^ w) :
    (wordAfter step count start).toNat = start.toNat + count * step.toNat := by
  induction count generalizing start with
  | zero => simp [wordAfter]
  | succ count ih =>
      have split : (count + 1) * step.toNat = count * step.toNat + step.toNat := Nat.succ_mul _ _
      have next : (start + step).toNat = start.toNat + step.toNat := by
        rw [BitVec.toNat_add, Nat.mod_eq_of_lt (by omega)]
      rw [wordAfter, ih _ (by omega), next]
      omega

/-- The words visited before the orbit wraps around, as numbers. -/
theorem map_toNat_visited (step : BitVec w) (count : ℕ) (start : BitVec w)
    (fits : start.toNat + (count - 1) * step.toNat < 2 ^ w) :
    (visited step count start).map BitVec.toNat =
      List.range' start.toNat count step.toNat := by
  induction count generalizing start with
  | zero => rfl
  | succ count ih =>
      rw [visited, List.map_cons, List.range'_succ]
      congr 1
      cases count with
      | zero => rfl
      | succ count =>
          have split : (count + 1 + 1 - 1) * step.toNat = count * step.toNat + step.toNat :=
            Nat.succ_mul _ _
          have next : (start + step).toNat = start.toNat + step.toNat := by
            rw [BitVec.toNat_add, Nat.mod_eq_of_lt (by omega)]
          rw [ih _ (by simp only [Nat.add_sub_cancel]; omega), next]

/-- How many words the loop visits when it does not wrap around. -/
def loopCount (step start limit : ℕ) : ℕ := (limit - start + (step - 1)) / step

/-- The words below the bound are the first `loopCount` of the progression. -/
theorem lt_loopCount_iff {step : ℕ} (positive : 0 < step) (start limit k : ℕ) :
    k < loopCount step start limit ↔ start + k * step < limit := by
  rw [loopCount, ← Nat.add_one_le_iff, Nat.le_div_iff_mul_le positive, Nat.add_one_mul]
  omega

/-- The largest word that leaves the remainder of `start` is not below `limit`,
or `start` itself is not. -/
def LoopEnds (w step start limit : ℕ) : Prop :=
  limit ≤ start ∨ limit ≤ 2 ^ w - step + start % step

/-- The word after the last one visited does not wrap around. -/
theorem LoopEnds.fits {start limit : ℕ} {p : ℕ} (divides : p ∣ 2 ^ w) (positive : 0 < p)
    (small : start < 2 ^ w) (ends : LoopEnds w p start limit) :
    start + loopCount p start limit * p < 2 ^ w := by
  rcases Nat.eq_zero_or_pos (loopCount p start limit) with none | some
  · rw [none]; omega
  · have last : start + (loopCount p start limit - 1) * p < limit :=
      (lt_loopCount_iff positive _ _ _).mp (by omega)
    have bound : limit ≤ 2 ^ w - p + start % p := by
      rcases ends with early | bound
      · have := Nat.le_mul_of_pos_right (loopCount p start limit - 1) positive
        omega
      · exact bound
    -- Both sides leave the same remainder, so a strict inequality is one by a whole step.
    obtain ⟨quotient, whole⟩ := divides
    have split : loopCount p start limit * p = (loopCount p start limit - 1) * p + p := by
      rw [← Nat.succ_mul]; congr 1; omega
    have start_eq : p * (start / p) + start % p = start := Nat.div_add_mod _ _
    have remainder : start % p < p := Nat.mod_lt _ positive
    have quotients : start / p + (loopCount p start limit - 1) + 1 < quotient := by
      by_contra above
      have : p * quotient ≤ p * (start / p + (loopCount p start limit - 1) + 1) :=
        Nat.mul_le_mul_left _ (by omega)
      rw [Nat.mul_add, Nat.mul_add, Nat.mul_comm p (loopCount p start limit - 1)] at this
      omega
    have : p * (start / p + (loopCount p start limit - 1) + 1 + 1) ≤ p * quotient :=
      Nat.mul_le_mul_left _ (by omega)
    rw [Nat.mul_add, Nat.mul_add, Nat.mul_add, Nat.mul_comm p (loopCount p start limit - 1)] at this
    omega

variable {limit start : BitVec w}

/-- A loop whose words stay below the wrap-around leaves after `loopCount`
passes. -/
theorem leavesAfter_loopCount (divides : step.toNat ∣ 2 ^ w) (positive : 0 < step.toNat)
    (ends : LoopEnds w step.toNat start.toNat limit.toNat) :
    LeavesAfter step limit start (loopCount step.toNat start.toNat limit.toNat) := by
  have fits := ends.fits divides positive start.isLt
  constructor
  · intro addr member
    have inRange : addr.toNat ∈ List.range' start.toNat
        (loopCount step.toNat start.toNat limit.toNat) step.toNat := by
      have less : start.toNat + (loopCount step.toNat start.toNat limit.toNat - 1) * step.toNat ≤
          start.toNat + loopCount step.toNat start.toNat limit.toNat * step.toNat :=
        Nat.add_le_add_left (Nat.mul_le_mul_right _ (Nat.sub_le _ _)) _
      rw [← map_toNat_visited _ _ _ (lt_of_le_of_lt less fits)]
      exact List.mem_map_of_mem member
    obtain ⟨k, bound, equal⟩ := List.mem_range'.mp inRange
    rw [BitVec.lt_def, equal, Nat.mul_comm]
    exact (lt_loopCount_iff positive _ _ k).mp bound
  · rw [BitVec.lt_def, toNat_wordAfter _ _ fits, ← lt_loopCount_iff positive]
    exact lt_irrefl _

/-- A loop whose bound lies above every word of the orbit never leaves. -/
theorem LeavesAfter.loopEnds (divides : step.toNat ∣ 2 ^ w) (positive : 0 < step.toNat) {count : ℕ}
    (leaves : LeavesAfter step limit start count) :
    LoopEnds w step.toNat start.toNat limit.toNat := by
  have remainder := wordAfter_mod divides count start
  have bound := (wordAfter step count start).isLt
  have notBelow := leaves.2
  rw [BitVec.lt_def, not_lt] at notBelow
  refine .inr (notBelow.trans ?_)
  obtain ⟨quotient, whole⟩ := divides
  have split := Nat.div_add_mod (wordAfter step count start).toNat step.toNat
  have below : (wordAfter step count start).toNat / step.toNat < quotient := by
    rw [Nat.div_lt_iff_lt_mul positive, Nat.mul_comm]
    omega
  have : step.toNat * ((wordAfter step count start).toNat / step.toNat + 1) ≤
      step.toNat * quotient := Nat.mul_le_mul_left _ below
  rw [Nat.mul_add] at this
  omega

variable {body : BitVec w → σ → σ}

/-- With a budget above the number of words to visit, a loop that ends gives the
fold of its body over them. -/
theorem wordLoop_eq_foldl (divides : step.toNat ∣ 2 ^ w) (positive : 0 < step.toNat)
    (ends : LoopEnds w step.toNat start.toNat limit.toNat) {fuel : ℕ}
    (enough : loopCount step.toNat start.toNat limit.toNat < fuel) (state : σ) :
    wordLoop step limit body fuel start state =
      some ((visited step (loopCount step.toNat start.toNat limit.toNat) start).foldl
        (fun s addr => body addr s) state) :=
  (wordLoop_eq_some_iff ..).mpr
    ⟨_, enough, leavesAfter_loopCount divides positive ends, rfl⟩

/-- **Conversely, a loop with a result ends below the wrap-around**, and the result is
that fold, whatever the budget was. -/
theorem eq_foldl_of_wordLoop (divides : step.toNat ∣ 2 ^ w) (positive : 0 < step.toNat) {fuel : ℕ}
    {state result : σ} (ended : wordLoop step limit body fuel start state = some result) :
    LoopEnds w step.toNat start.toNat limit.toNat ∧
      result = (visited step (loopCount step.toNat start.toNat limit.toNat) start).foldl
        (fun s addr => body addr s) state := by
  obtain ⟨count, -, leaves, rfl⟩ := (wordLoop_eq_some_iff ..).mp ended
  have ends := leaves.loopEnds divides positive
  rw [leaves.unique (leavesAfter_loopCount divides positive ends)]
  exact ⟨ends, rfl⟩

end Divides

end KernelV.Library
