import KernelV.Memory.PageStores

/-!
# What a fault stores beside the mapping

Before `page_fault_handler` runs, the processor and `isr_page_fault` push on the stack of the code
that faults, and the handler goes on there. What it calls stores to words of the first megabyte as
well: `pmm_alloc_frame` to its bitmap and its counters, `printk` to the log and to the screen.

Which values these are does not matter here, only where they go: to the kernel's own words
(`OwnPlaces`), or to the words below the interrupted stack pointer (`BelowStack`). So a fault is
served by `pageFaultHandler` between two lists of such stores, made before and after the page is
mapped (`servePageFault`). A push to a page that is not present shuts the machine down.

Neither list changes the paging structures or a word behind a page that is not below the stack
pointer (`SideEffect`). So a fault that is served grows the translation as `pageFaultHandler` does,
at the price of the words below the stack pointer (`Provided.serves`).
-/

set_option autoImplicit false

namespace KernelV.Memory

open Library

/-! ## Where the stores go -/

/-- The code that a fault interrupts: its stack pointer, and what the handler reads as the saved
frame. -/
structure Interrupted where
  esp : Word
  frame : PageFaultStack

/-- A word below the stack pointer, at most `depth` bytes down. -/
def BelowStack (depth : ℕ) (esp addr : Word) : Prop :=
  esp.toNat ≤ addr.toNat + depth ∧ addr.toNat < esp.toNat ∧ 4 ∣ addr.toNat

instance (depth : ℕ) (esp : Word) : DecidablePred (BelowStack depth esp) := fun _ =>
  inferInstanceAs (Decidable (_ ∧ _ ∧ _))

/-- The stack has room for the handler from 4 MiB on. -/
def HasRoom (depth : ℕ) (context : Interrupted) : Prop :=
  identityLimit.toNat + depth ≤ context.esp.toNat ∧ 4 ∣ context.esp.toNat

instance (depth : ℕ) (context : Interrupted) : Decidable (HasRoom depth context) :=
  inferInstanceAs (Decidable (_ ∧ _))

theorem BelowStack.identityLimit_le {depth : ℕ} {context : Interrupted} {addr : Word}
    (below : BelowStack depth context.esp addr) (room : HasRoom depth context) : identityLimit ≤ addr := by
  rw [BitVec.le_def]
  have near := below.1
  have enough := room.1
  omega

/-- Words of the first megabyte that the kernel stores to while it serves a fault, outside of the
directory and the first table: its variables, the bitmap, the log and the screen. -/
structure OwnPlaces where
  Holds : Word → Prop
  aligned : ∀ place, Holds place → 4 ∣ place.toNat
  low : ∀ place, Holds place → place.toNat < 0x100000
  notDirectory : ∀ place, Holds place → entryFrame place ≠ pageDirStartAddr
  notFirstTable : ∀ place, Holds place → entryFrame place ≠ pageTableStartAddr

/-- The word overlaps none of the kernel's own. -/
def OwnPlaces.Spares (own : OwnPlaces) (place : Word) : Prop :=
  ∀ other, own.Holds other → place.toNat + 4 ≤ other.toNat ∨ other.toNat + 4 ≤ place.toNat

theorem OwnPlaces.spares_of_high (own : OwnPlaces) {place : Word} (high : 0x100000 ≤ place.toNat) :
    own.Spares place := by
  intro other held
  have low := own.low other held
  have aligned := own.aligned other held
  omega

theorem OwnPlaces.Spares.ne {own : OwnPlaces} {place other : Word} (spared : own.Spares place)
    (held : own.Holds other) : place ≠ other := by
  rintro rfl
  have apart := spared place held
  omega

/-! ## The stores -/

/-- What is stored on one side of the mapping, in order: an address and a value each, which may
depend on all there is. -/
structure SideStores (depth : ℕ) (own : OwnPlaces) where
  stores : Word → Interrupted → Kernel → List (Word × Word)
  placed : ∀ addr context k, HasRoom depth context → ∀ store ∈ stores addr context k,
    own.Holds store.1 ∨ BelowStack depth context.esp store.1

/-- Stores in order. -/
def performStores (stores : List (Word × Word)) (k : Kernel) : Machine Kernel :=
  stores.foldlM (fun k store => storeVirtual store.1 store.2 k) k

variable {depth : ℕ} {own : OwnPlaces}

/-- A page fault from the push of the processor to the return to the interrupted code. -/
def servePageFault (enter leave : SideStores depth own) (addr : Word) (context : Interrupted)
    (k : Kernel) : Machine Kernel := do
  let k ← performStores (enter.stores addr context k) k
  let k ← pageFaultHandler addr context.frame k
  performStores (leave.stores addr context k) k

/-- A fault that is served goes through its three parts. -/
theorem servePageFault_eq_ok_iff {enter leave : SideStores depth own} {addr : Word}
    {context : Interrupted} {k next : Kernel} :
    servePageFault enter leave addr context k = .ok next ↔
      ∃ entered handled, performStores (enter.stores addr context k) k = .ok entered ∧
        pageFaultHandler addr context.frame entered = .ok handled ∧
        performStores (leave.stores addr context handled) handled = .ok next := by
  rw [servePageFault]
  constructor
  · intro served
    cases pushed : performStores (enter.stores addr context k) k with
    | error stopped =>
        rw [pushed] at served
        cases served
    | ok entered =>
        rw [pushed] at served
        change (pageFaultHandler addr context.frame entered).bind _ = _ at served
        cases answered : pageFaultHandler addr context.frame entered with
        | error stopped =>
            rw [answered] at served
            cases served
        | ok handled =>
            rw [answered] at served
            exact ⟨entered, handled, rfl, answered, served⟩
  · rintro ⟨entered, handled, pushed, answered, left⟩
    rw [pushed]
    change (pageFaultHandler addr context.frame entered).bind _ = _
    rw [answered]
    exact left

/-! ## Their effect -/

/-- Words have been stored to the kernel's own places and below the stack pointer, and nowhere
else. -/
structure SideEffect (depth : ℕ) (own : OwnPlaces) (context : Interrupted) (k next : Kernel) : Prop where
  others : next = { k with mem := next.mem }
  tables : SameTables k.mem next.mem
  kept : ∀ place, own.Spares place →
    (∀ addr, BelowStack depth context.esp addr → translate k.mem addr ≠ some place) →
    next.mem place = k.mem place

section Effect

variable {context : Interrupted} {k next : Kernel}

theorem storeVirtual_eq_ok_iff {addr value : Word} :
    storeVirtual addr value k = .ok next ↔
      ∃ physical, translate k.mem addr = some physical ∧
        next = { k with mem := Function.update k.mem physical value } := by
  rw [storeVirtual]
  cases translate k.mem addr with
  | none => simp
  | some physical => simp [eq_comm]

/-- The kernel's own words are mapped to themselves. -/
theorem Owned.translate_own (owned : Owned k) {place : Word} (held : own.Holds place) :
    translate k.mem place = some place := by
  have low := own.low place held
  have limit : identityLimit.toNat = 0x400000 := rfl
  refine translate_of_identityEntry (owned.identity place ?_)
  rw [BitVec.lt_def]
  omega

namespace SideEffect

theorem refl (k : Kernel) : SideEffect depth own context k k :=
  ⟨rfl, .refl _, fun _ _ _ => rfl⟩

theorem translate_eq (effect : SideEffect depth own context k next) :
    translate next.mem = translate k.mem := by
  funext addr
  rw [translate, translate, effect.tables.walk_eq]

theorem pmm (effect : SideEffect depth own context k next) : next.pmm = k.pmm := by
  rw [effect.others]

theorem trans {last : Kernel} (first : SideEffect depth own context k next)
    (second : SideEffect depth own context next last) : SideEffect depth own context k last := by
  refine ⟨?_, first.tables.trans second.tables, fun place spared behind => ?_⟩
  · rw [second.others, first.others]
  · rw [second.kept place spared (by rwa [first.translate_eq]), first.kept place spared behind]

/-- One store to one of these places. -/
theorem store (owned : Owned k) (room : HasRoom depth context) {addr value : Word}
    (placed : own.Holds addr ∨ BelowStack depth context.esp addr)
    (stored : storeVirtual addr value k = .ok next) : SideEffect depth own context k next := by
  obtain ⟨physical, found, rfl⟩ := storeVirtual_eq_ok_iff.mp stored
  rcases placed with held | below
  · rw [owned.translate_own held, Option.some.injEq] at found
    obtain rfl : addr = physical := found
    have reserved := reserved_of_low owned (own.low addr held) (own.notDirectory addr held)
      (own.notFirstTable addr held)
    refine ⟨rfl, reserved.sameTables_store owned value, fun place spared _ => ?_⟩
    exact Function.update_of_ne (spared.ne held) value k.mem
  · have same := owned.sameTables_store (below.identityLimit_le room) found value
    refine ⟨rfl, same, fun place _ behind => ?_⟩
    have different : place ≠ physical := by
      rintro rfl
      exact behind addr below found
    exact Function.update_of_ne different value k.mem

theorem owned (effect : SideEffect depth own context k next) (before : Owned k) : Owned next := by
  rw [effect.others]
  exact before.sameTables effect.tables

/-- Stores in order, each to one of these places. -/
theorem perform {stores : List (Word × Word)} (owned : Owned k) (room : HasRoom depth context)
    (placed : ∀ store ∈ stores, own.Holds store.1 ∨ BelowStack depth context.esp store.1)
    (performed : performStores stores k = .ok next) : SideEffect depth own context k next := by
  induction stores generalizing k with
  | nil =>
      cases performed
      exact .refl _
  | cons first stores ih =>
      rw [performStores, List.foldlM_cons] at performed
      cases stored : storeVirtual first.1 first.2 k with
      | error stopped =>
          rw [stored] at performed
          cases performed
      | ok middle =>
          rw [stored] at performed
          have step := SideEffect.store owned room (placed first List.mem_cons_self) stored
          exact step.trans (ih (step.owned owned)
            (fun store member => placed store (List.mem_cons_of_mem _ member)) performed)

/-- They go through if all the pages are present. -/
theorem exists_perform {stores : List (Word × Word)} (owned : Owned k) (room : HasRoom depth context)
    (placed : ∀ store ∈ stores, own.Holds store.1 ∨ BelowStack depth context.esp store.1)
    (present : ∀ store ∈ stores, translate k.mem store.1 ≠ none) :
    ∃ next, performStores stores k = .ok next ∧ SideEffect depth own context k next := by
  suffices ended : ∃ next, performStores stores k = .ok next by
    obtain ⟨next, performed⟩ := ended
    exact ⟨next, performed, .perform owned room placed performed⟩
  induction stores generalizing k with
  | nil => exact ⟨k, rfl⟩
  | cons first stores ih =>
      obtain ⟨physical, found⟩ := Option.ne_none_iff_exists'.mp (present first List.mem_cons_self)
      have stored : storeVirtual first.1 first.2 k =
          .ok { k with mem := Function.update k.mem physical first.2 } :=
        storeVirtual_eq_ok_iff.mpr ⟨physical, found, rfl⟩
      have step := SideEffect.store owned room (placed first List.mem_cons_self) stored
      rw [performStores, List.foldlM_cons, stored]
      refine ih (step.owned owned) (fun store member => placed store (List.mem_cons_of_mem _ member)) ?_
      intro store member
      rw [step.translate_eq]
      exact present store (List.mem_cons_of_mem _ member)

theorem provided (effect : SideEffect depth own context k next) (before : Provided k) : Provided next := by
  rw [effect.others]
  exact before.sameTables effect.tables

/-- A word behind a page is kept if it is not one below the stack pointer. -/
theorem kept_page (effect : SideEffect depth own context k next) (owned : Owned k)
    (room : HasRoom depth context) {addr physical : Word} (high : identityLimit ≤ addr)
    (above : ¬ BelowStack depth context.esp addr) (found : translate k.mem addr = some physical) :
    next.mem physical = k.mem physical := by
  have taken := (owned.exclusive.taken _ _ (Owned.owns_of_translate high found)).1
  rw [toNat_entryFrame] at taken
  refine effect.kept physical (own.spares_of_high (by omega)) fun other below foundOther => above ?_
  rwa [owned.translate_injective high (below.identityLimit_le room) found foundOther]

/-- A reserved word that is not the kernel's own is kept, and stays reserved. -/
theorem kept_reserved (effect : SideEffect depth own context k next) (room : HasRoom depth context)
    {place : Word} (spared : own.Spares place) (reserved : Reserved k place) :
    Reserved next place ∧ next.mem place = k.mem place := by
  constructor
  · rw [effect.others]
    exact reserved.sameTables effect.tables
  · refine effect.kept place spared fun addr below found => ?_
    exact reserved.unowned _ (Owned.owns_of_translate (below.identityLimit_le room) found)

end SideEffect

/-! ## Faults that are served -/

variable {enter leave : SideStores depth own} {addr : Word}

/-- **A fault that is served**: stores on the side, a fault that is answered, stores on the side. -/
theorem Provided.serve_cases (provided : Provided k) (may : MayFault k addr) (room : HasRoom depth context)
    (served : servePageFault enter leave addr context k = .ok next) :
    ∃ entered handled, SideEffect depth own context k entered ∧ Provided entered ∧
      pageFaultHandler addr context.frame entered = .ok handled ∧ Provided handled ∧
      SideEffect depth own context handled next ∧ Provided next := by
  obtain ⟨entered, handled, pushed, answered, left⟩ := servePageFault_eq_ok_iff.mp served
  have before := SideEffect.perform provided.owned room (enter.placed addr context k room) pushed
  have providedEntered := before.provided provided
  have mayEntered : MayFault entered addr := by
    rw [MayFault, NotPresent, before.tables.walk_eq, before.pmm]
    exact may
  have providedHandled := providedEntered.fault mayEntered answered
  have after := SideEffect.perform providedHandled.owned room (leave.placed addr context handled room) left
  exact ⟨entered, handled, before, providedEntered, answered, providedHandled, after,
    after.provided providedHandled⟩

/-- A fault at a page that is not present, if it is served: the page is present, and the words behind
the other pages are still in their places, but for those below the stack pointer. -/
theorem Provided.serves (provided : Provided k) (absent : translate k.mem addr = none)
    (room : HasRoom depth context) (served : servePageFault enter leave addr context k = .ok next) :
    Provided next ∧ translate next.mem addr ≠ none ∧
      ∀ other, identityLimit ≤ other → ∀ physical, translate k.mem other = some physical →
        translate next.mem other = some physical ∧
          (¬ BelowStack depth context.esp other → next.mem physical = k.mem physical) := by
  have may : MayFault k addr := .inl (Option.map_eq_none_iff.mp absent)
  obtain ⟨entered, handled, before, providedEntered, answered, -, after, providedNext⟩ :=
    provided.serve_cases may room served
  have absentEntered : translate entered.mem addr = none := by
    rw [before.translate_eq, absent]
  obtain ⟨providedHandled, present, grown⟩ := providedEntered.grows absentEntered answered
  refine ⟨providedNext, ?_, fun other high physical found => ?_⟩
  · rw [after.translate_eq]
    exact present
  · have foundEntered : translate entered.mem other = some physical := by
      rw [before.translate_eq, found]
    obtain ⟨still, same⟩ := grown other high physical foundEntered
    refine ⟨by rw [after.translate_eq, still], fun above => ?_⟩
    calc next.mem physical = handled.mem physical :=
          after.kept_page providedHandled.owned room high above still
      _ = entered.mem physical := same
      _ = k.mem physical := before.kept_page provided.owned room high above found

end Effect

end KernelV.Memory
