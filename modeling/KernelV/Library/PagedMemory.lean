import Mathlib.Logic.Function.Basic
import Mathlib.Tactic.Common

/-!
# Memory behind a translation that grows

A program loads and stores words by virtual addresses. A pager translates them, and where it has
no translation a fault handler may provide one, after which the access is made again. What the
handler provides is not cleared: the words that a page starts with are whatever its frame held. And
a handler that runs on the stack of the program overwrites what lies below it.

A program that does not load such words cannot tell this from a memory that has a word at every
address from the start (`Pager.Lawful.run_flat`). Which words those are is known only once the
program has run: the run is followed backwards, a store gives the word before it back, and a fault
only hides words that nothing has read yet.

What the handler and every store keep, a whole run keeps (`Pager.Lawful.run_induction`).
-/

set_option autoImplicit false

namespace KernelV.Library

universe u

variable {S V C P A R : Type u}

/-! ## Programs -/

/-- Loads, whose value decides how the program goes on, and stores. Every access comes with the
context that its fault handler would see. -/
inductive Program (V C A R : Type u) : Type u where
  | done (result : R)
  | load (addr : V) (context : C) (next : A → Program V C A R)
  | store (addr : V) (context : C) (value : A) (next : Program V C A R)

namespace Program

/-- Every access the program can come to is in the domain, in a context that is served. -/
def Within (domain : V → Prop) (served : C → Prop) : Program V C A R → Prop
  | .done _ => True
  | .load addr context next =>
      (domain addr ∧ served context) ∧ ∀ value, (next value).Within domain served
  | .store addr context _ next => (domain addr ∧ served context) ∧ next.Within domain served

end Program

/-- The memory without some of its words. -/
def forget (lost : V → Prop) [DecidablePred lost] (memory : V → Option A) : V → Option A :=
  fun addr => if lost addr then none else memory addr

/-- The program over a memory with a word at every address, of which an access may cost some. A word
that is lost has no value until it is stored again. -/
def Program.runFlat [DecidableEq V] (lost : C → V → Prop) [∀ context, DecidablePred (lost context)] :
    Program V C A R → (V → Option A) → Option (R × (V → Option A))
  | .done result, memory => some (result, memory)
  | .load addr context next, memory =>
      match forget (lost context) memory addr with
      | some value => (next value).runFlat lost (forget (lost context) memory)
      | none => none
  | .store addr context value next, memory =>
      next.runFlat lost (Function.update (forget (lost context) memory) addr (some value))

/-- The memory that has a word at every address. -/
def full (flat : V → A) : V → Option A := fun addr => some (flat addr)

/-- The program loads no word that is lost. -/
def Program.Remembers [DecidableEq V] (lost : C → V → Prop) [∀ context, DecidablePred (lost context)]
    (program : Program V C A R) (flat : V → A) : Prop :=
  (program.runFlat lost (full flat)).isSome

/-! ## Pagers -/

/-- States with a translation of addresses, words behind the translated ones, and a handler that
goes on or stops where there is no translation. -/
structure Pager (S V C P A : Type u) where
  translate : S → V → Option P
  read : S → P → A
  write : S → P → A → S
  fault : V → C → S → Except S S

namespace Pager

/-- The translated address of an access, after at most as many faults as `restarts`. -/
def reach (pager : Pager S V C P A) (addr : V) (context : C) : ℕ → S → Option (Except S (P × S))
  | 0, s => (pager.translate s addr).map fun physical => .ok (physical, s)
  | restarts + 1, s =>
      match pager.translate s addr with
      | some physical => some (.ok (physical, s))
      | none =>
          match pager.fault addr context s with
          | .ok next => pager.reach addr context restarts next
          | .error stopped => some (.error stopped)

/-- The program with paging. There is no result if an access faults more often than it may. -/
def run (pager : Pager S V C P A) (restarts : ℕ) : Program V C A R → S → Option (Except S (R × S))
  | .done result, s => some (.ok (result, s))
  | .load addr context next, s =>
      match pager.reach addr context restarts s with
      | some (.ok (physical, t)) => pager.run restarts (next (pager.read t physical)) t
      | some (.error stopped) => some (.error stopped)
      | none => none
  | .store addr context value next, s =>
      match pager.reach addr context restarts s with
      | some (.ok (physical, t)) => pager.run restarts next (pager.write t physical value)
      | some (.error stopped) => some (.error stopped)
      | none => none

/-- Every translation is still there, with the same word behind it unless this is lost. -/
def Grows (pager : Pager S V C P A) (domain lost : V → Prop) (s t : S) : Prop :=
  ∀ addr, domain addr → ∀ physical, pager.translate s addr = some physical →
    pager.translate t addr = some physical ∧
      (¬ lost addr → pager.read t physical = pager.read s physical)

/-- The words that can be reached are those of a flat memory, as far as it has them. -/
def Shows (pager : Pager S V C P A) (domain : V → Prop) (s : S) (flat : V → Option A) : Prop :=
  ∀ addr, domain addr → ∀ physical, pager.translate s addr = some physical →
    ∀ value, flat addr = some value → pager.read s physical = value

/-- What a pager has to do in its good states. Different addresses have different words behind
them, a store leaves the translation alone, and a handler that goes on has provided the
translation that was missing. -/
structure Lawful [DecidableEq P] (pager : Pager S V C P A) (domain : V → Prop) (served : C → Prop)
    (lost : C → V → Prop) (good : S → Prop) : Prop where
  read_write : ∀ s physical value,
    pager.read (pager.write s physical value) = Function.update (pager.read s) physical value
  write : ∀ s addr physical value, good s → domain addr → pager.translate s addr = some physical →
    good (pager.write s physical value) ∧
      ∀ other, pager.translate (pager.write s physical value) other = pager.translate s other
  injective : ∀ s addr other physical, good s → domain addr → domain other →
    pager.translate s addr = some physical → pager.translate s other = some physical → addr = other
  fault : ∀ s addr context next, good s → domain addr → served context →
    pager.translate s addr = none → pager.fault addr context s = .ok next →
    good next ∧ pager.translate next addr ≠ none ∧ pager.Grows domain (lost context) s next

variable {pager : Pager S V C P A} {domain : V → Prop} {served : C → Prop} {lost : C → V → Prop}
  {good : S → Prop}

theorem Grows.refl (domain lost : V → Prop) (s : S) : pager.Grows domain lost s s :=
  fun _ _ _ found => ⟨found, fun _ => rfl⟩

/-- There is a flat memory that has the words of some addresses, and those that can be reached are
the same. -/
theorem exists_shows [Inhabited A] (pager : Pager S V C P A) (domain known : V → Prop) (s : S) :
    ∃ flat, (∀ addr, (flat addr).isSome ↔ known addr) ∧ pager.Shows domain s flat := by
  classical
  let seen (addr : V) : A := (pager.translate s addr).elim default (pager.read s)
  have words (addr : V) : (if known addr then some (seen addr) else none).isSome ↔ known addr := by
    split <;> simpa
  refine ⟨fun addr => if known addr then some (seen addr) else none, words,
    fun addr inside physical found value is => ?_⟩
  have same : seen addr = pager.read s physical := by
    simp only [seen, found, Option.elim_some]
  rw [Option.ite_none_right_eq_some, Option.some.injEq] at is
  rw [← is.2, same]

/-- **Before the translation grew there was less to be seen.** What a flat memory knew then is what it
knows later, and the words that were lost in between. -/
theorem Grows.exists_shows [Inhabited A] {lost : V → Prop} [DecidablePred lost] {s t : S}
    (grows : pager.Grows domain lost s t) {known : V → Prop} {later : V → Option A}
    (words : ∀ addr, (later addr).isSome ↔ known addr ∧ ¬ lost addr)
    (shown : pager.Shows domain t later) :
    ∃ flat, (∀ addr, (flat addr).isSome ↔ known addr) ∧ pager.Shows domain s flat ∧
      forget lost flat = later := by
  obtain ⟨before, wordsBefore, shownBefore⟩ := pager.exists_shows domain known s
  let flat (addr : V) : Option A := if lost addr then before addr else later addr
  have gone {addr : V} (lose : lost addr) : flat addr = before addr := if_pos lose
  have kept {addr : V} (keep : ¬ lost addr) : flat addr = later addr := if_neg keep
  refine ⟨flat, fun addr => ?_, fun addr inside physical found value is => ?_, funext fun addr => ?_⟩
  · by_cases lose : lost addr
    · rw [gone lose, wordsBefore]
    · rw [kept lose, words]
      exact and_iff_left lose
  · by_cases lose : lost addr
    · rw [gone lose] at is
      exact shownBefore addr inside physical found value is
    · rw [kept lose] at is
      obtain ⟨still, same⟩ := grows addr inside physical found
      rw [← same lose]
      exact shown addr inside physical still value is
  · by_cases lose : lost addr
    · have unknown : ¬ (later addr).isSome := fun known => ((words addr).mp known).2 lose
      rw [forget, if_pos lose, Option.not_isSome_iff_eq_none.mp unknown]
    · rw [forget, if_neg lose, kept lose]

/-! ## Reaching a word -/

section Reach

variable {addr : V}

theorem reach_some (pager : Pager S V C P A) (context : C) {s : S} {physical : P}
    (found : pager.translate s addr = some physical) (restarts : ℕ) :
    pager.reach addr context restarts s = some (.ok (physical, s)) := by
  cases restarts with
  | zero => simp only [reach, found, Option.map_some]
  | succ restarts => simp only [reach, found]

theorem reach_none (pager : Pager S V C P A) (context : C) {s : S}
    (missing : pager.translate s addr = none) (restarts : ℕ) :
    pager.reach addr context (restarts + 1) s =
      match pager.fault addr context s with
      | .ok next => pager.reach addr context restarts next
      | .error stopped => some (.error stopped) := by
  simp only [reach, missing]

/-- A fault that is answered is enough. -/
theorem reach_fault (pager : Pager S V C P A) {context : C} {s next : S} {physical : P}
    (missing : pager.translate s addr = none) (handled : pager.fault addr context s = .ok next)
    (found : pager.translate next addr = some physical) (restarts : ℕ) :
    pager.reach addr context (restarts + 1) s = some (.ok (physical, next)) := by
  rw [reach_none pager context missing, handled]
  exact reach_some pager context found restarts

variable [DecidableEq P]

/-- **What it takes to reach a word**: nothing, one fault, or a fault that stops. -/
theorem Lawful.reach_cases (lawful : pager.Lawful domain served lost good) {s : S} (start : good s)
    {context : C} (inside : domain addr ∧ served context) (restarts : ℕ) :
    (∃ physical t, pager.reach addr context (restarts + 1) s = some (.ok (physical, t)) ∧ good t ∧
        pager.translate t addr = some physical ∧ pager.Grows domain (lost context) s t ∧
        (t = s ∨ pager.translate s addr = none ∧ pager.fault addr context s = .ok t)) ∨
      ∃ stopped, pager.reach addr context (restarts + 1) s = some (.error stopped) ∧
        pager.translate s addr = none ∧ pager.fault addr context s = .error stopped := by
  cases found : pager.translate s addr with
  | some physical =>
      exact .inl ⟨physical, s, reach_some pager context found _, start, found, .refl _ _ s, .inl rfl⟩
  | none =>
      rw [reach_none pager context found]
      cases handled : pager.fault addr context s with
      | error stopped => exact .inr ⟨stopped, rfl, rfl, rfl⟩
      | ok next =>
          obtain ⟨after, provided, grows⟩ :=
            lawful.fault s addr context next start inside.1 inside.2 found handled
          obtain ⟨physical, now⟩ := Option.ne_none_iff_exists'.mp provided
          exact .inl ⟨physical, next, reach_some pager context now _, after, now, grows, .inr ⟨rfl, rfl⟩⟩

end Reach

/-! ## Runs -/

variable [DecidableEq P]

namespace Lawful

variable (lawful : pager.Lawful domain served lost good)
include lawful

/-- A store gives the word before it back. -/
theorem exists_shows_of_write [DecidableEq V] [Inhabited A] {s : S} (start : good s) {addr : V}
    (inside : domain addr) {physical : P} (found : pager.translate s addr = some physical) {value : A}
    {known : V → Prop} {later : V → Option A}
    (words : ∀ other, (later other).isSome ↔ other = addr ∨ known other)
    (shown : pager.Shows domain (pager.write s physical value) later) :
    ∃ flat, (∀ other, (flat other).isSome ↔ known other) ∧ pager.Shows domain s flat ∧
      Function.update flat addr (some value) = later := by
  have unmoved := (lawful.write s addr physical value start inside found).2
  have stored : later addr = some value := by
    obtain ⟨word, is⟩ := Option.isSome_iff_exists.mp ((words addr).mpr (.inl rfl))
    have same := shown addr inside physical ((unmoved addr).trans found) word is
    rw [lawful.read_write, Function.update_self] at same
    rw [is, same]
  obtain ⟨before, wordsBefore, shownBefore⟩ := pager.exists_shows domain known s
  refine ⟨Function.update later addr (before addr), fun other => ?_,
    fun other insideOther place foundOther word is => ?_, ?_⟩
  · by_cases same : other = addr
    · rw [same, Function.update_self, wordsBefore]
    · rw [Function.update_of_ne same, words]
      exact or_iff_right same
  · by_cases same : other = addr
    · rw [same, Function.update_self] at is
      exact shownBefore addr inside place (same ▸ foundOther) word is
    · have different : place ≠ physical := by
        rintro rfl
        exact same (lawful.injective s other addr place start insideOther inside foundOther found)
      rw [Function.update_of_ne same] at is
      have kept := shown other insideOther place ((unmoved other).trans foundOther) word is
      rwa [lawful.read_write, Function.update_of_ne different] at kept
  · rw [Function.update_idem, ← stored, Function.update_eq_self]

variable [DecidableEq V] [Inhabited A] [∀ context, DecidablePred (lost context)]

/-- A run of a program, followed backwards. For any choice of the words that a flat memory has at the
start there is one with the words that can be reached, over which the program either loads a lost
word or has the same result and leaves the words that can be reached at the end. -/
theorem exists_flat (restarts : ℕ) (program : Program V C A R) (within : program.Within domain served)
    {s : S} (start : good s) :
    ∃ outcome, pager.run (restarts + 1) program s = some outcome ∧
      ∀ result last, outcome = .ok (result, last) → ∀ known : V → Prop,
        ∃ flat, (∀ addr, (flat addr).isSome ↔ known addr) ∧ pager.Shows domain s flat ∧
          ∀ ended, program.runFlat lost flat = some ended →
            ended.1 = result ∧ pager.Shows domain last ended.2 := by
  induction program generalizing s with
  | done result =>
      refine ⟨_, rfl, fun other last ended known => ?_⟩
      cases ended
      obtain ⟨flat, words, shown⟩ := pager.exists_shows domain known s
      refine ⟨flat, words, shown, fun ended ran => ?_⟩
      cases ran
      exact ⟨rfl, shown⟩
  | load addr context next ih =>
      obtain ⟨inside, rest⟩ := within
      rw [run]
      rcases lawful.reach_cases start inside restarts with
        ⟨physical, t, reached, after, found, grows, -⟩ | ⟨stopped, reached, -⟩
      · obtain ⟨outcome, ran, same⟩ := ih (pager.read t physical) (rest _) after
        rw [reached]
        refine ⟨outcome, ran, fun result last ended known => ?_⟩
        obtain ⟨later, words, shown, runs⟩ :=
          same result last ended fun other => known other ∧ ¬ lost context other
        obtain ⟨flat, wordsBefore, shownBefore, remembered⟩ := grows.exists_shows words shown
        refine ⟨flat, wordsBefore, shownBefore, fun ended ranFlat => ?_⟩
        rw [Program.runFlat, remembered] at ranFlat
        cases is : later addr with
        | none =>
            rw [is] at ranFlat
            cases ranFlat
        | some value =>
            rw [is, ← shown addr inside.1 physical found value is] at ranFlat
            exact runs ended ranFlat
      · rw [reached]
        exact ⟨_, rfl, fun result last ended => by cases ended⟩
  | store addr context value next ih =>
      obtain ⟨inside, rest⟩ := within
      rw [run]
      rcases lawful.reach_cases start inside restarts with
        ⟨physical, t, reached, after, found, grows, -⟩ | ⟨stopped, reached, -⟩
      · have stored := (lawful.write t addr physical value after inside.1 found).1
        obtain ⟨outcome, ran, same⟩ := ih rest stored
        rw [reached]
        refine ⟨outcome, ran, fun result last ended known => ?_⟩
        obtain ⟨later, words, shown, runs⟩ :=
          same result last ended fun other => other = addr ∨ known other ∧ ¬ lost context other
        obtain ⟨middle, wordsMiddle, shownMiddle, update⟩ :=
          lawful.exists_shows_of_write after inside.1 found words shown
        obtain ⟨flat, wordsBefore, shownBefore, remembered⟩ :=
          grows.exists_shows wordsMiddle shownMiddle
        refine ⟨flat, wordsBefore, shownBefore, fun ended ranFlat => ?_⟩
        rw [Program.runFlat, remembered, update] at ranFlat
        exact runs ended ranFlat
      · rw [reached]
        exact ⟨_, rfl, fun result last ended => by cases ended⟩

/-- **A program on demand-paged memory runs as on a flat one.** No access faults twice. If the
program ends, and over the flat memories with the words that could be reached at its start it loads
no word that is lost, then over one of them it has the same result and leaves the words that can be
reached at its end, as far as they are not lost. -/
theorem run_flat (restarts : ℕ) (program : Program V C A R) (within : program.Within domain served)
    {s : S} (start : good s) :
    ∃ outcome, pager.run (restarts + 1) program s = some outcome ∧
      ∀ result last, outcome = .ok (result, last) →
        (∀ flat, pager.Shows domain s (full flat) → program.Remembers lost flat) →
        ∃ flat, pager.Shows domain s (full flat) ∧
          ∃ final, program.runFlat lost (full flat) = some (result, final) ∧
            pager.Shows domain last final := by
  obtain ⟨outcome, ran, same⟩ := lawful.exists_flat restarts program within start
  refine ⟨outcome, ran, fun result last ended remembers => ?_⟩
  obtain ⟨recalled, words, shown, runs⟩ := same result last ended fun _ => True
  obtain ⟨flat, rfl⟩ : ∃ flat : V → A, recalled = full flat := by
    choose flat is using fun addr => Option.isSome_iff_exists.mp ((words addr).mpr trivial)
    exact ⟨flat, funext is⟩
  obtain ⟨⟨other, final⟩, ranFlat⟩ := Option.isSome_iff_exists.mp (remembers flat shown)
  obtain ⟨rfl, shownLast⟩ := runs _ ranFlat
  exact ⟨flat, shown, final, ranFlat, shownLast⟩

omit [DecidableEq V] [Inhabited A] [∀ context, DecidablePred (lost context)]

/-- **What every fault and every store keeps, a whole run keeps.** -/
theorem run_induction (kept : S → Prop)
    (fault : ∀ s addr context next, good s → kept s → domain addr → served context →
      pager.translate s addr = none → pager.fault addr context s = .ok next → kept next)
    (write : ∀ s addr physical value, good s → kept s → domain addr →
      pager.translate s addr = some physical → kept (pager.write s physical value))
    {restarts : ℕ} {program : Program V C A R} (within : program.Within domain served) {s : S}
    (start : good s) (holds : kept s) {result : R} {last : S}
    (ran : pager.run (restarts + 1) program s = some (.ok (result, last))) : kept last := by
  -- A word is reached in a state that is still good and still as it should be.
  have reaches {s : S} (start : good s) (holds : kept s) {addr : V} {context : C}
      (inside : domain addr ∧ served context) :
      (∃ physical t, pager.reach addr context (restarts + 1) s = some (.ok (physical, t)) ∧ good t ∧
          kept t ∧ pager.translate t addr = some physical) ∨
        ∃ stopped, pager.reach addr context (restarts + 1) s = some (.error stopped) := by
    rcases lawful.reach_cases start inside restarts with
      ⟨physical, t, reached, after, found, -, origin⟩ | ⟨stopped, reached, -⟩
    · refine .inl ⟨physical, t, reached, after, ?_, found⟩
      rcases origin with rfl | ⟨missing, handled⟩
      · exact holds
      · exact fault s addr context t start holds inside.1 inside.2 missing handled
    · exact .inr ⟨stopped, reached⟩
  induction program generalizing s with
  | done result =>
      cases ran
      exact holds
  | load addr context next ih =>
      obtain ⟨inside, rest⟩ := within
      rw [run] at ran
      rcases reaches start holds inside with
        ⟨physical, t, reached, after, still, -⟩ | ⟨stopped, reached⟩
      · rw [reached] at ran
        exact ih _ (rest _) after still ran
      · rw [reached] at ran
        cases ran
  | store addr context value next ih =>
      obtain ⟨inside, rest⟩ := within
      rw [run] at ran
      rcases reaches start holds inside with
        ⟨physical, t, reached, after, still, found⟩ | ⟨stopped, reached⟩
      · rw [reached] at ran
        have stored := (lawful.write t addr physical value after inside.1 found).1
        exact ih rest stored (write t addr physical value after still inside.1 found) ran
      · rw [reached] at ran
        cases ran

end Lawful

end Pager

end KernelV.Library
