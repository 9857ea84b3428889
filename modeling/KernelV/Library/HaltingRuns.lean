import Mathlib.Control.Lawful
import Mathlib.Data.List.Basic

/-!
# Machines that may halt

A step of a machine goes on with a state or halts in one. A run does the actions one after
the other; behind a halt there are none.

Two machines are in lockstep when each step of both goes on or each halts, in related states.
This is a property of the steps, and it is one of all runs (`InLockstep.foldlM`). A run that
halts does so in one of its actions, and the ones before it went on (`foldlM_eq_error_iff`).
-/

set_option autoImplicit false

namespace KernelV.Library

universe u v w

variable {State : Type u} {State' : Type v} {Action : Type w}

/-- Both machines go on, or both have halted, in related states. -/
inductive InLockstep (related : State → State' → Prop) : Except State State → Except State' State' → Prop
  | goesOn {s : State} {t : State'} : related s t → InLockstep related (.ok s) (.ok t)
  | halted {s : State} {t : State'} : related s t → InLockstep related (.error s) (.error t)

namespace InLockstep

variable {related : State → State' → Prop} {step : State → Action → Except State State}
  {step' : State' → Action → Except State' State'}

/-- **Machines whose steps are in lockstep have runs in lockstep.** -/
theorem foldlM (steps : ∀ s t action, related s t → InLockstep related (step s action) (step' t action))
    {s : State} {t : State'} (start : related s t) (actions : List Action) :
    InLockstep related (actions.foldlM step s) (actions.foldlM step' t) := by
  induction actions generalizing s t with
  | nil => exact .goesOn start
  | cons action actions ih =>
      rw [List.foldlM_cons, List.foldlM_cons]
      have first := steps s t action start
      revert first
      generalize step s action = result
      generalize step' t action = result'
      intro first
      cases first with
      | goesOn next => exact ih next
      | halted last => exact .halted last

/-- Where one machine goes on, the other does, in a related state. -/
theorem of_ok {result : Except State State} {t : State'} (lockstep : InLockstep related result (.ok t)) :
    ∃ s, result = .ok s ∧ related s t := by
  cases lockstep with
  | goesOn next => exact ⟨_, rfl, next⟩

theorem goesOn_iff {result : Except State State} {result' : Except State' State'}
    (lockstep : InLockstep related result result') : (∃ s, result = .ok s) ↔ ∃ t, result' = .ok t := by
  cases lockstep with
  | goesOn next => exact iff_of_true ⟨_, rfl⟩ ⟨_, rfl⟩
  | halted last => exact iff_of_false (fun ⟨_, same⟩ => nomatch same) fun ⟨_, same⟩ => nomatch same

end InLockstep

/-- **A run halts in one of its actions**, and those before it went on. -/
theorem foldlM_eq_error_iff {step : State → Action → Except State State} {s last : State}
    {actions : List Action} :
    actions.foldlM step s = .error last ↔
      ∃ before action after mid, actions = before ++ action :: after ∧
        before.foldlM step s = .ok mid ∧ step mid action = .error last := by
  induction actions generalizing s with
  | nil =>
      constructor
      · intro ends
        cases ends
      · rintro ⟨before, action, after, -, empty, -⟩
        simp at empty
  | cons action actions ih =>
      rw [List.foldlM_cons]
      cases first : step s action with
      | error stop =>
          constructor
          · intro ends
            exact ⟨[], action, actions, s, rfl, rfl, first.trans ends⟩
          · rintro ⟨before, action', after, mid, split, passed, ends⟩
            cases before with
            | nil =>
                obtain ⟨rfl, -⟩ := List.cons.inj split
                obtain rfl := Except.ok.inj passed
                exact first.symm.trans ends
            | cons action'' before =>
                obtain ⟨rfl, -⟩ := List.cons.inj split
                rw [List.foldlM_cons, first] at passed
                cases passed
      | ok next =>
          constructor
          · intro ends
            obtain ⟨before, action', after, mid, rfl, passed, ends⟩ := ih.mp ends
            refine ⟨action :: before, action', after, mid, rfl, ?_, ends⟩
            rw [List.foldlM_cons, first]
            exact passed
          · rintro ⟨before, action', after, mid, split, passed, ends⟩
            cases before with
            | nil =>
                obtain ⟨rfl, -⟩ := List.cons.inj split
                obtain rfl := Except.ok.inj passed
                rw [first] at ends
                cases ends
            | cons action'' before =>
                obtain ⟨rfl, rfl⟩ := List.cons.inj split
                rw [List.foldlM_cons, first] at passed
                exact ih.mpr ⟨before, action', after, mid, rfl, passed, ends⟩

end KernelV.Library
