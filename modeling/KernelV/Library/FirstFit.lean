import Mathlib.Order.Interval.Finset.Nat

/-!
# First-fit search

A first-fit allocator keeps a truth value for every index and hands out the
least unused index of a window. The search and the marking are stated over an
arbitrary map from indices to truth values.

Repeating the search fills the window from below: some number of rounds has
used up everything below a chosen bound and nothing else
(`exists_iterate_fitStep_filled`). Hence every unused index of the window is
found after some number of rounds (`exists_iterate_firstFit_eq`), and the search
fails after some number of rounds (`exists_iterate_firstFit_eq_none`). Round by
round the unused indices are taken in their order (`unusedFrom_fitStep`).
-/

set_option autoImplicit false

namespace KernelV.Library

/-- The first unused index among `count` indices from `start` on. -/
def firstFit (used : ℕ → Bool) : ℕ → ℕ → Option ℕ
  | 0, _ => none
  | count + 1, start => if used start then firstFit used count (start + 1) else some start

/-- Marking one more index as used. -/
def mark (used : ℕ → Bool) (idx : ℕ) : ℕ → Bool := fun other => decide (other = idx) || used other

/-- One round: the index found, if any, becomes used. -/
def fitStep (count start : ℕ) (used : ℕ → Bool) : ℕ → Bool :=
  match firstFit used count start with
  | some idx => mark used idx
  | none => used

/-- The search finds the least unused index of the window. -/
theorem firstFit_eq_some_iff (used : ℕ → Bool) (count start idx : ℕ) :
    firstFit used count start = some idx ↔
      start ≤ idx ∧ idx < start + count ∧ used idx = false ∧
        ∀ other, start ≤ other → other < idx → used other = true := by
  induction count generalizing start with
  | zero =>
      simp only [firstFit, reduceCtorEq, false_iff]
      omega
  | succ count ih =>
      rw [firstFit]
      split
      · rename_i inUse
        rw [ih]
        constructor
        · rintro ⟨above, below, free, earlier⟩
          refine ⟨by omega, by omega, free, fun other lower upper => ?_⟩
          rcases Nat.eq_or_lt_of_le lower with rfl | lower
          · exact inUse
          · exact earlier other lower upper
        · rintro ⟨above, below, free, earlier⟩
          have different : start ≠ idx := fun same => by simp [← same, inUse] at free
          exact ⟨by omega, by omega, free, fun other lower => earlier other (by omega)⟩
      · rename_i notInUse
        rw [Option.some.injEq]
        constructor
        · rintro rfl
          exact ⟨le_rfl, by omega, by simpa using notInUse, fun other lower upper => by omega⟩
        · rintro ⟨above, -, -, earlier⟩
          by_contra different
          exact notInUse (earlier start le_rfl (by omega))

/-- The search fails when every index of the window is used. -/
theorem firstFit_eq_none_iff (used : ℕ → Bool) (count start : ℕ) :
    firstFit used count start = none ↔
      ∀ other, start ≤ other → other < start + count → used other = true := by
  induction count generalizing start with
  | zero =>
      simp only [firstFit, true_iff]
      omega
  | succ count ih =>
      rw [firstFit]
      split
      · rename_i inUse
        rw [ih]
        constructor
        · intro rest other lower upper
          rcases Nat.eq_or_lt_of_le lower with rfl | lower
          · exact inUse
          · exact rest other lower (by omega)
        · exact fun all other lower upper => all other (by omega) (by omega)
      · rename_i notInUse
        simp only [reduceCtorEq, false_iff]
        exact fun all => notInUse (all start le_rfl (by omega))

theorem mark_apply (used : ℕ → Bool) (idx other : ℕ) :
    mark used idx other = (decide (other = idx) || used other) := rfl

/-! ## Repeated rounds -/

/-- The unused indices of an interval. -/
def unusedBetween (used : ℕ → Bool) (start bound : ℕ) : Finset ℕ :=
  (Finset.Ico start bound).filter (fun idx => used idx = false)

/-- Marking an unused index of the interval leaves fewer of them. -/
theorem card_unusedBetween_mark_lt {used : ℕ → Bool} {start bound idx : ℕ} (above : start ≤ idx)
    (below : idx < bound) (free : used idx = false) :
    (unusedBetween (mark used idx) start bound).card < (unusedBetween used start bound).card := by
  refine Finset.card_lt_card ⟨fun other member => ?_, fun subset => ?_⟩
  · simp only [unusedBetween, Finset.mem_filter, mark_apply, Bool.or_eq_false_iff] at member ⊢
    exact ⟨member.1, member.2.2⟩
  · have member : idx ∈ unusedBetween used start bound := by
      simp [unusedBetween, above, below, free]
    simpa [unusedBetween, mark] using subset member

/-- **Rounds fill the window from below.** Some number of rounds has used
everything between `start` and `bound` and left the rest as it was. -/
theorem exists_iterate_fitStep_filled (used : ℕ → Bool) {count start bound : ℕ}
    (within : bound ≤ start + count) :
    ∃ rounds, (∀ other, start ≤ other → other < bound →
        (fitStep count start)^[rounds] used other = true) ∧
      ∀ other, other < start ∨ bound ≤ other →
        (fitStep count start)^[rounds] used other = used other := by
  -- Induction on the number of unused indices below the bound: a round takes one of them.
  induction size : (unusedBetween used start bound).card using Nat.strong_induction_on
    generalizing used with
  | _ size ih =>
      cases found : firstFit used count start with
      | none =>
          rw [firstFit_eq_none_iff] at found
          exact ⟨0, fun other lower upper => found other lower (by omega), fun _ _ => rfl⟩
      | some idx =>
          have step : fitStep count start used = mark used idx := by simp [fitStep, found]
          rw [firstFit_eq_some_iff] at found
          obtain ⟨above, inWindow, free, earlier⟩ := found
          by_cases below : idx < bound
          · have fewer := card_unusedBetween_mark_lt above below free
            obtain ⟨rounds, filled, rest⟩ := ih _ (size ▸ fewer) (mark used idx) rfl
            refine ⟨rounds + 1, ?_, ?_⟩
            · simpa only [Function.iterate_succ_apply, step] using filled
            · intro other outside
              rw [Function.iterate_succ_apply, step, rest other outside]
              have different : other ≠ idx := by omega
              simp [mark, different]
          · exact ⟨0, fun other lower upper => earlier other lower (by omega), fun _ _ => rfl⟩

/-- Every unused index of the window is found after some number of rounds. -/
theorem exists_iterate_firstFit_eq {used : ℕ → Bool} {count start idx : ℕ} (above : start ≤ idx)
    (below : idx < start + count) (free : used idx = false) :
    ∃ rounds, firstFit ((fitStep count start)^[rounds] used) count start = some idx := by
  obtain ⟨rounds, filled, rest⟩ := exists_iterate_fitStep_filled used (le_of_lt below)
  refine ⟨rounds, (firstFit_eq_some_iff _ _ _ _).mpr ⟨above, below, ?_, filled⟩⟩
  rw [rest idx (.inr le_rfl), free]

/-- The search fails after some number of rounds, which touched nothing outside
the window. -/
theorem exists_iterate_firstFit_eq_none (used : ℕ → Bool) (count start : ℕ) :
    ∃ rounds, firstFit ((fitStep count start)^[rounds] used) count start = none ∧
      ∀ other, other < start ∨ start + count ≤ other →
        (fitStep count start)^[rounds] used other = used other := by
  obtain ⟨rounds, filled, rest⟩ :=
    exists_iterate_fitStep_filled used (le_refl (start + count))
  exact ⟨rounds, (firstFit_eq_none_iff _ _ _).mpr filled, rest⟩

/-! ## The unused indices in order -/

/-- The unused indices of a window, the least one first. -/
def unusedFrom (used : ℕ → Bool) (start count : ℕ) : List ℕ :=
  (List.range' start count).filter fun idx => !used idx

/-- The search finds the first of them. -/
theorem head?_unusedFrom (used : ℕ → Bool) (start count : ℕ) :
    (unusedFrom used start count).head? = firstFit used count start := by
  induction count generalizing start with
  | zero => rfl
  | succ count ih =>
      rw [unusedFrom, List.range'_succ, firstFit, ← ih]
      cases inUse : used start with
      | true => rw [List.filter_cons_of_neg (by simp [inUse]), if_pos rfl, unusedFrom]
      | false =>
          rw [List.filter_cons_of_pos (by simp [inUse])]
          rfl

/-- An index that is marked leaves the others in order. -/
theorem unusedFrom_mark (used : ℕ → Bool) (start count idx : ℕ) :
    unusedFrom (mark used idx) start count =
      (unusedFrom used start count).filter fun other => decide (other ≠ idx) := by
  rw [unusedFrom, unusedFrom, List.filter_filter]
  congr 1
  funext other
  rw [mark_apply, Bool.not_or, decide_not]

/-- **A round takes the first of the unused indices** and leaves the others in order. -/
theorem unusedFrom_fitStep (used : ℕ → Bool) (start count : ℕ) :
    unusedFrom (fitStep count start used) start count = (unusedFrom used start count).tail := by
  have head := head?_unusedFrom used start count
  rw [fitStep, ← head]
  cases order : unusedFrom used start count with
  | nil => exact order
  | cons idx rest =>
      have distinct : (unusedFrom used start count).Nodup := List.Nodup.filter _ List.nodup_range'
      rw [order] at distinct
      have absent := (List.nodup_cons.mp distinct).1
      change unusedFrom (mark used idx) start count = rest
      rw [unusedFrom_mark, order, List.filter_cons_of_neg (by simp), List.filter_eq_self]
      rintro other inside
      rw [decide_eq_true_eq]
      rintro rfl
      exact absent inside

end KernelV.Library
