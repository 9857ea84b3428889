import Mathlib.Data.Int.Init
import Mathlib.Logic.Function.Basic
import Mathlib.Tactic.Common

/-!
# Counting loops, and loops that fill a memory

The loop `for (int i = start; i < stop; i++) body` over a state, for indices that do not
overflow. What holds of the state before each pass is an invariant indexed by the pass
(`forLoop_induction`).

A loop that fills a stretch of memory cell by cell leaves the new contents below the
index and the old contents elsewhere (`overlay`), and one store moves the bound by one
(`update_overlay`).
-/

set_option autoImplicit false

namespace KernelV.Library

universe u

variable {σ α : Type u}

/-- `for (int i = start; i < stop; i++) body`. -/
def forLoop (start stop : ℤ) (body : ℤ → σ → σ) (state : σ) : σ :=
  (List.range (stop - start).toNat).foldl (fun state (i : ℕ) => body (start + i) state) state

/-- A loop whose bound is its start. -/
theorem forLoop_self (start : ℤ) (body : ℤ → σ → σ) (state : σ) :
    forLoop start start body state = state := by
  simp [forLoop]

/-- The pass that extends a loop by one. -/
theorem forLoop_succ {start stop : ℤ} (ordered : start ≤ stop) (body : ℤ → σ → σ) (state : σ) :
    forLoop start (stop + 1) body state = body stop (forLoop start stop body state) := by
  have count : (stop + 1 - start).toNat = (stop - start).toNat + 1 := by omega
  have last : start + (stop - start).toNat = stop := by omega
  simp only [forLoop, count, List.range_succ, List.foldl_append, List.foldl_cons, List.foldl_nil, last]

/-- **Invariants of a loop**: what holds at the start and is kept by every pass holds at
the end. -/
theorem forLoop_induction {start stop : ℤ} (ordered : start ≤ stop) (body : ℤ → σ → σ) (state : σ)
    (invariant : ℤ → σ → Prop) (init : invariant start state)
    (pass : ∀ i s, start ≤ i → i < stop → invariant i s → invariant (i + 1) (body i s)) :
    invariant stop (forLoop start stop body state) := by
  induction stop, ordered using Int.leInduction with
  | base =>
      rw [forLoop_self]
      exact init
  | succ stop ordered ih =>
      rw [forLoop_succ ordered]
      refine pass stop _ ordered (Int.lt_succ stop) (ih ?_)
      intro i s lower upper
      exact pass i s lower (Int.lt_trans upper (Int.lt_succ stop))

/-- New contents from `low` on and below `high`, and the old ones elsewhere. -/
def overlay (low high : ℤ) (new old : ℤ → α) : ℤ → α :=
  fun index => if low ≤ index ∧ index < high then new index else old index

theorem overlay_of_mem {low high index : ℤ} (above : low ≤ index) (below : index < high)
    (new old : ℤ → α) : overlay low high new old index = new index :=
  if_pos ⟨above, below⟩

theorem overlay_of_lt {low high index : ℤ} (below : index < low) (new old : ℤ → α) :
    overlay low high new old index = old index :=
  if_neg fun inside => absurd inside.1 (Int.not_le.mpr below)

theorem overlay_of_le {low high index : ℤ} (above : high ≤ index) (new old : ℤ → α) :
    overlay low high new old index = old index :=
  if_neg fun inside => absurd inside.2 (Int.not_lt.mpr above)

/-- Nothing is filled yet. -/
theorem overlay_self (low : ℤ) (new old : ℤ → α) : overlay low low new old = old := by
  funext index
  exact if_neg fun inside => absurd inside.1 (Int.not_le.mpr inside.2)

/-- **One store of a filling loop.** -/
theorem update_overlay {low high : ℤ} (ordered : low ≤ high) (new old : ℤ → α) :
    Function.update (overlay low high new old) high (new high) = overlay low (high + 1) new old := by
  funext index
  by_cases here : index = high
  · rw [here, Function.update_self, overlay_of_mem ordered (Int.lt_succ high)]
  · rw [Function.update_of_ne here, overlay, overlay]
    have bound : index < high + 1 ↔ index < high := by omega
    simp only [bound]

end KernelV.Library
