import KernelV.Library.PagedMemory
import KernelV.Memory.SideStores
import KernelV.Memory.StackPages
import KernelV.Memory.UsableMemory

/-!
# Programs on demand-paged memory

Code that runs after boot loads and stores words from 4 MiB on as if all of them were there. An
access without a translation faults, the fault is served, and the instruction is executed again.

This has a price: what lies below the stack pointer of the access is lost, because the processor and
the handler push there. A program that loads no word it has lost so runs as on a flat memory
(`programs_run_flat`): no access faults twice, no other store is lost, and no two words share a place.

A kernel is in service from boot on, whatever faults and whatever stores of programs have come since
(`InService`). From there on no word in a reserved frame changes that is not the kernel's own
(`programs_keep_reserved`), and none from 1 MiB on that is not available has changed since the kernel
was entered (`programs_keep_unavailable`).
-/

set_option autoImplicit false

namespace KernelV.Memory

open Library

/-! ## The pager -/

section KernelPager

variable {depth : ℕ} {own : OwnPlaces}

/-- The kernel as a pager: `isr_page_fault` executes the access again when the handler returns. -/
def kernelPager (enter leave : SideStores depth own) : Pager Kernel Word Interrupted Word Word where
  translate k := translate k.mem
  read k := k.mem
  write k physical value := { k with mem := Function.update k.mem physical value }
  fault := servePageFault enter leave

/-- A whole word from 4 MiB on. -/
def PagedWord (addr : Word) : Prop := identityLimit ≤ addr ∧ 4 ∣ addr.toNat

instance (addr : Word) : Decidable (PagedWord addr) := inferInstanceAs (Decidable (_ ∧ _))

/-- What a fault may cost the code that it interrupts. -/
def Overwritten (depth : ℕ) (context : Interrupted) (addr : Word) : Prop :=
  BelowStack depth context.esp addr

instance (depth : ℕ) (context : Interrupted) : DecidablePred (Overwritten depth context) := fun _ =>
  inferInstanceAs (Decidable (BelowStack _ _ _))

theorem lawful_kernelPager (enter leave : SideStores depth own) :
    (kernelPager enter leave).Lawful PagedWord (HasRoom depth) (Overwritten depth) Provided where
  read_write _ _ _ := rfl
  write k addr physical value provided inside found := by
    have same := provided.owned.sameTables_store inside.1 found value
    refine ⟨provided.store inside.1 found value, fun other => ?_⟩
    change translate (Function.update k.mem physical value) other = translate k.mem other
    rw [translate, translate, same.walk_eq]
  injective k addr other physical provided inside insideOther found foundOther :=
    provided.owned.translate_injective inside.1 insideOther.1 found foundOther
  fault k addr context next provided inside room absent served := by
    obtain ⟨after, present, kept⟩ := provided.serves absent room served
    exact ⟨after, present, fun other insideOther => kept other insideOther.1⟩

end KernelPager

/-! ## Words that stay -/

section Keeps

variable {depth : ℕ} {own : OwnPlaces} {enter leave : SideStores depth own} {k : Kernel}

/-- The word of a reserved place has a value. -/
structure Keeps (place value : Word) (k : Kernel) : Prop where
  reserved : Reserved k place
  same : k.mem place = value

namespace Keeps

variable {place value addr : Word} {next : Kernel}

/-- A new frame mapped leaves it alone. -/
theorem gets (keeps : Keeps place value k) (owned : Owned k) {frame : Word}
    (gets : GetsFrame k next addr frame)
    (maps : MapsPage addr (pageEntry frame (pagePresent ||| pageWrite)) k.mem next.mem) :
    Keeps place value next := by
  obtain ⟨reserved, same⟩ := keeps
  refine ⟨⟨fun offered => reserved.withheld (gets.offers _ offered), fun owner held => ?_,
    reserved.notDirectory, reserved.notFirstTable⟩, ?_⟩
  · rcases gets.origin owned.apart maps held with old | offered
    · exact reserved.unowned owner old
    · rw [toNat_entryFrame, Nat.mul_div_cancel _ (by decide)] at offered
      exact reserved.withheld offered
  · rw [gets.mem_eq reserved.withheld reserved.notDirectory (reserved.unlinked owned), same]

theorem mapNewFrame (keeps : Keeps place value k) (owned : Owned k) (ample : Ample 2 k.pmm)
    {format : String} {arguments : List Word} (ran : mapNewFrame addr format arguments k = .ok next) :
    Keeps place value next :=
  keeps.gets owned (getsFrame_of_mapNewFrame owned ample ran) (owned.mapsPage_of_ok ample ran).1

/-- Stores on the side leave it alone, if it is not one of the kernel's own words. -/
theorem side (keeps : Keeps place value k) {context : Interrupted}
    (effect : SideEffect depth own context k next) (room : HasRoom depth context)
    (spared : own.Spares place) : Keeps place value next := by
  obtain ⟨reserved, same⟩ := effect.kept_reserved room spared keeps.reserved
  exact ⟨reserved, same.trans keeps.same⟩

/-- An answered fault leaves it alone. -/
theorem fault (keeps : Keeps place value k) (provided : Provided k) {saved : PageFaultStack}
    (handled : pageFaultHandler addr saved k = .ok next) : Keeps place value next := by
  rcases fault_cases provided.owned provided.two addr saved with ⟨recovers, -⟩ | ⟨stopped, error, -⟩
  · obtain ⟨-, format, arguments, same⟩ := recovers.handled k
    rw [same] at handled
    exact keeps.mapNewFrame provided.owned provided.two handled
  · cases handled.symm.trans error

/-- A fault that is served leaves it alone, if it is not one of the kernel's own words. -/
theorem serve (keeps : Keeps place value k) (spared : own.Spares place) (provided : Provided k)
    {context : Interrupted} (may : MayFault k addr) (room : HasRoom depth context)
    (served : servePageFault enter leave addr context k = .ok next) : Keeps place value next := by
  obtain ⟨entered, handled, before, providedEntered, answered, -, after, -⟩ :=
    provided.serve_cases may room served
  have kept := (keeps.side before room spared).fault providedEntered answered
  exact kept.side after room spared

/-- A store behind a page leaves it alone. -/
theorem store (keeps : Keeps place value k) (owned : Owned k) {physical : Word} (inside : PagedWord addr)
    (found : translate k.mem addr = some physical) (stored : Word) :
    Keeps place value { k with mem := Function.update k.mem physical stored } := by
  obtain ⟨reserved, same⟩ := keeps
  have tables := owned.sameTables_store inside.1 found stored
  have different : place ≠ physical := by
    rintro rfl
    exact reserved.unowned _ (Owned.owns_of_translate inside.1 found)
  refine ⟨reserved.sameTables tables, ?_⟩
  rw [← same]
  exact Function.update_of_ne different stored k.mem

/-- A page of the stack mapped leaves it alone. -/
theorem mapStackPage (keeps : Keeps place value k) (owned : Owned k) (ample : Ample 2 k.pmm) {off : Word}
    (ran : mapStackPage off k = .ok next) : Keeps place value next := by
  rw [mapStackPage_eq] at ran
  cases mapped : Memory.mapNewFrame (kernelStackBottomVirt + off) "Stack frame allocation failed" [] k with
  | error stopped =>
      rw [mapped] at ran
      cases ran
  | ok middle =>
      rw [mapped] at ran
      cases ran
      obtain ⟨reserved, same⟩ := keeps.mapNewFrame owned ample mapped
      have marks := marks_pmmSetFrameBitmap (pmmAllocFrame k.pmm).1
        ((pmmAllocFrame k.pmm).1 + pageSize) middle.pmm
      exact ⟨⟨fun offered => reserved.withheld (marks.offered offered), reserved.unowned,
        reserved.notDirectory, reserved.notFirstTable⟩, same⟩

/-- A program from 4 MiB on leaves it alone, and so do the faults that it takes. -/
theorem program {R : Type} (keeps : Keeps place value k) (spared : own.Spares place)
    (provided : Provided k) {restarts : ℕ} {program : Program Word Interrupted Word R}
    (within : program.Within PagedWord (HasRoom depth)) {result : R} {last : Kernel}
    (ran : (kernelPager enter leave).run (restarts + 1) program k = some (.ok (result, last))) :
    Keeps place value last := by
  refine (lawful_kernelPager enter leave).run_induction (Keeps place value) ?_ ?_ within provided keeps ran
  · intro s addr context next provided kept inside room absent served
    exact kept.serve spared provided (.inl (Option.map_eq_none_iff.mp absent)) room served
  · intro s addr physical stored provided kept inside found
    exact kept.store provided.owned inside found stored

end Keeps

end Keeps

/-! ## From boot on -/

section Programs

variable {depth : ℕ} {own : OwnPlaces} {enter leave : SideStores depth own} {image : KernelImage}
  {fuel : ℕ} {map : List E820Entry} {frameBitmap : ℕ → BitVec 8} {mem : Word → Word} {k : Kernel}
  {R : Type}

/-- The states of a kernel in which programs run: it has booted, faults have been served, and
programs have stored to words from 4 MiB on. -/
inductive InService (enter leave : SideStores depth own) (image : KernelImage) (fuel : ℕ)
    (map : List E820Entry) (frameBitmap : ℕ → BitVec 8) (mem : Word → Word) : Kernel → Prop where
  | booted {k : Kernel} (running : Running image fuel map frameBitmap mem k) :
      InService enter leave image fuel map frameBitmap mem k
  | served {k next : Kernel} (before : InService enter leave image fuel map frameBitmap mem k)
      {addr : Word} {context : Interrupted} (may : MayFault k addr) (room : HasRoom depth context)
      (served : servePageFault enter leave addr context k = .ok next) :
      InService enter leave image fuel map frameBitmap mem next
  | stored {k : Kernel} (before : InService enter leave image fuel map frameBitmap mem k)
      {addr physical : Word} (inside : PagedWord addr) (found : translate k.mem addr = some physical)
      (value : Word) :
      InService enter leave image fuel map frameBitmap mem
        { k with mem := Function.update k.mem physical value }

/-- `paging_init` stores to the directory and to the first table. -/
theorem mem_setupPaging {place : Word} (notDirectory : entryFrame place ≠ pageDirStartAddr)
    (notFirstTable : entryFrame place ≠ pageTableStartAddr) (image : KernelImage) (pmm : Pmm) (k : Kernel) :
    (setupPaging image pmm k).mem place = k.mem place := by
  change (pagingInit _).mem place = k.mem place
  rw [pagingInit]
  have aligned : 4096 ∣ pageTableStartAddr.toNat := by decide
  refine (setEntry_of_ne dvd_pageDirStartAddr (by decide) notDirectory _).trans ?_
  rw [storeCells_of_ne aligned notFirstTable _ le_rfl,
    storeCells_of_ne dvd_pageDirStartAddr notDirectory _ le_rfl]

/-- **Boot and all faults since leave alone** what is reserved when the paging structures have been
set up. -/
theorem Running.keeps (running : Running image fuel map frameBitmap mem k) {place : Word}
    (reserved : ∀ t, initFromMap fuel map frameBitmap = some t →
      Reserved (setupPaging image t (.loaded frameBitmap mem)) place) : Keeps place (mem place) k := by
  obtain ⟨init, visits, ran, run⟩ := running
  rename_i t mapped start
  have ample : Ample (16386 + 32) (bootReservations image t) := (ample_of_initFromMap init).mono (by decide)
  have small := (initialized_of_pmmInit init).2.maxFrameIdx_lt
  have few : mapped.length ≤ 15 := visits.length_le
  have enough : Ample (2 * mapped.length) (setupPaging image t (.loaded frameBitmap mem)).pmm :=
    ample_setupPaging small (ample.mono (by omega))
  have withheld := reserved t init
  have setup : Keeps place (mem place) (setupPaging image t (.loaded frameBitmap mem)) :=
    ⟨withheld, mem_setupPaging withheld.notDirectory withheld.notFirstTable image t _⟩
  have booted : Keeps place (mem place) start :=
    foldl_mapStackPage_induction (Keeps place (mem place)) mapped
      (fun off _ k next owned ample keeps mapped => keeps.mapStackPage owned ample mapped)
      (owned_setupPaging small rfl) enough
      (fun off member => le_stackAddr off (visits.subset member)) setup ran
  obtain ⟨owned, counted⟩ := owned_foldl_setupPaging init ample visits ran.symm
  -- The faults since boot, one after the other.
  have provided : Provided start := owned.provided counted
  clear ran visits enough few
  generalize reached : (Except.ok k : Machine Kernel) = machine at run
  induction run generalizing k with
  | booted =>
      cases reached
      exact booted
  | fault before addr frame may ih => exact (ih rfl).fault (before.provided provided) reached.symm

namespace InService

variable (service : InService enter leave image fuel map frameBitmap mem k)
include service

theorem provided : Provided k := by
  induction service with
  | booted running => exact running.provided
  | served before may room served ih =>
      obtain ⟨-, -, -, -, -, -, -, after⟩ := ih.serve_cases may room served
      exact after
  | stored before inside found value ih => exact ih.store inside.1 found value

/-- What is reserved from the start and not the kernel's own is left alone. -/
theorem keeps {place : Word} (spared : own.Spares place)
    (reserved : ∀ t, initFromMap fuel map frameBitmap = some t →
      Reserved (setupPaging image t (.loaded frameBitmap mem)) place) : Keeps place (mem place) k := by
  induction service with
  | booted running => exact running.keeps reserved
  | served before may room served ih => exact ih.serve spared before.provided may room served
  | stored before inside found value ih => exact ih.store before.provided.owned inside found value

/-- A program leaves the kernel in service. -/
theorem program {restarts : ℕ} {program : Program Word Interrupted Word R}
    (within : program.Within PagedWord (HasRoom depth)) {result : R} {last : Kernel}
    (ran : (kernelPager enter leave).run (restarts + 1) program k = some (.ok (result, last))) :
    InService enter leave image fuel map frameBitmap mem last := by
  refine (lawful_kernelPager enter leave).run_induction
    (InService enter leave image fuel map frameBitmap mem) ?_ ?_ within service.provided service ran
  · intro s addr context next _ before inside room absent served
    exact before.served (.inl (Option.map_eq_none_iff.mp absent)) room served
  · intro s addr physical value _ before inside found
    exact before.stored inside found value

end InService

/-- **Heap and stack on demand.** A program that runs on a kernel in service takes at most one fault
for an access. If it ends, and over the flat memories with the words mapped at its start it loads no
word that a fault may have cost it, then over one of them it has the same result, and what this
memory has at the end is mapped at the end. -/
theorem programs_run_flat (service : InService enter leave image fuel map frameBitmap mem k)
    (restarts : ℕ) (program : Program Word Interrupted Word R)
    (within : program.Within PagedWord (HasRoom depth)) :
    ∃ outcome, (kernelPager enter leave).run (restarts + 1) program k = some outcome ∧
      ∀ result last, outcome = .ok (result, last) →
        (∀ flat, (kernelPager enter leave).Shows PagedWord k (full flat) →
          program.Remembers (Overwritten depth) flat) →
        ∃ flat, (kernelPager enter leave).Shows PagedWord k (full flat) ∧
          ∃ final, program.runFlat (Overwritten depth) (full flat) = some (result, final) ∧
            (kernelPager enter leave).Shows PagedWord last final :=
  (lawful_kernelPager enter leave).run_flat restarts program within service.provided

/-! ## Stores on the side in a sample -/

/-- The first words of the bitmap and of the screen. -/
def sampleOwn : OwnPlaces where
  Holds place := place = frameBitmapAddr ∨ place = 0xB8000
  aligned _ held := by rcases held with rfl | rfl <;> decide
  low _ held := by rcases held with rfl | rfl <;> decide
  notDirectory _ held := by rcases held with rfl | rfl <;> decide
  notFirstTable _ held := by rcases held with rfl | rfl <;> decide

/-- The first word of the kernel is neither. -/
theorem spares_sampleOwn : sampleOwn.Spares 0x10000 := by
  rintro other (rfl | rfl) <;> decide

/-- Zeros for the eighteen words that the processor and `isr_page_fault` push, and a mark in the
bitmap and on the screen. -/
def sampleSides : SideStores 72 sampleOwn where
  stores _ context k :=
    (List.range 18).map (fun index => (context.esp - BitVec.ofNat 32 (4 * (index + 1)), 0)) ++
      [(frameBitmapAddr, k.mem frameBitmapAddr ||| 1), (0xB8000, 0x07210721)]
  placed := by
    rintro addr context k room ⟨place, value⟩ member
    have limit : identityLimit.toNat = 0x400000 := rfl
    have enough := room.1
    have aligned := room.2
    rcases List.mem_append.mp member with pushed | marked
    · obtain ⟨index, few, is⟩ := List.mem_map.mp pushed
      cases is
      have below : index < 18 := List.mem_range.mp few
      have moved : (context.esp - BitVec.ofNat 32 (4 * (index + 1))).toNat =
          context.esp.toNat - 4 * (index + 1) := toNat_push (by omega)
      refine .inr ⟨?_, ?_, ?_⟩
      · rw [moved]
        omega
      · rw [moved]
        omega
      · rw [moved]
        omega
    · left
      rcases List.mem_cons.mp marked with is | last
      · cases is
        exact .inl rfl
      · cases List.mem_singleton.mp last
        exact .inr rfl

/-- Code on the stack of the kernel, with empty registers. -/
def sampleContext : Interrupted := ⟨0xC2FFFFC0, zeroStack⟩

/-- They go through where the pages of the stack are present. -/
theorem exists_perform_sampleSides (provided : Provided k)
    (present : ∀ addr, InStack addr → translate k.mem addr ≠ none) (addr : Word) :
    ∃ next, performStores (sampleSides.stores addr sampleContext k) k = .ok next ∧
      SideEffect 72 sampleOwn sampleContext k next := by
  have room : HasRoom 72 sampleContext := by decide
  refine SideEffect.exists_perform provided.owned room (sampleSides.placed addr sampleContext k room) ?_
  intro store member
  rcases sampleSides.placed addr sampleContext k room store member with held | below
  · rw [provided.owned.translate_own held]
    exact Option.some_ne_none _
  · have near := below.1
    have under := below.2.1
    have top : sampleContext.esp.toNat = 0xC2FFFFC0 := rfl
    have guardEnd : (kernelStackBottomVirt + pageSize).toNat = 0xC2FF1000 := rfl
    have stackTop : kernelStackTopVirt.toNat = 0xC3000000 := rfl
    refine present store.1 ⟨?_, ?_⟩
    · rw [BitVec.le_def]
      omega
    · rw [BitVec.lt_def]
      omega

/-- Two megabytes from 1 MiB on. -/
def roomyRegion : MemoryRegion := ⟨0x100000, 0x200000, e820TypeAvailable⟩

/-- On a roomy map a store to a page that is not present yet is served. -/
theorem exists_served_roomyRegion {map : List E820Entry}
    (single : (parseAndPrintE820Map map .empty).regions = [roomyRegion]) (mem : Word → Word) :
    ∃ k next, Running sampleImage (2 ^ 20 + 1) map (fun _ => 0) mem k ∧
      translate k.mem 0xC1001234 = none ∧
      servePageFault sampleSides sampleSides 0xC1001234 sampleContext k = .ok next := by
  have ends : ∀ region ∈ (parseAndPrintE820Map map .empty).regions, region.Ends := by
    rw [single]
    decide
  obtain ⟨t, init⟩ := exists_initFromMap map ends (fun _ => 0)
  obtain ⟨total, -, packed⟩ := (initialized_of_pmmInit init).2.packed_of_region sampleImage single le_rfl
    (show _ = 256 * 4096 from rfl) (show _ = (256 + 512) * 4096 from rfl)
  obtain ⟨k, boot, packedBoot, totalBoot, -, unlinked⟩ :=
    kernelMain_packed init packed le_rfl (by omega) (by decide) mem
  have running := running_of_kernelMain boot
  have absent := unlinked (pdirIndex 0xC1001234) (by decide) (by decide) (by decide)
  have missing : translate k.mem 0xC1001234 = none :=
    Option.map_eq_none_iff.mpr (notPresent_of_absent absent)
  have stack (addr : Word) (inside : InStack addr) : translate k.mem addr ≠ none := fun untranslated =>
    present_of_kernelMain boot inside (Option.map_eq_none_iff.mp untranslated)
  obtain ⟨entered, pushed, before⟩ := exists_perform_sampleSides running.provided stack 0xC1001234
  -- The handler finds the allocator and the tables as they were.
  have room : 275 < entered.pmm.totalFrames.toNat := by
    rw [before.pmm, totalBoot]
    omega
  have packedEntered : Packed _ entered.pmm := before.pmm ▸ packedBoot
  have absentEntered : tableAt entered.mem (pdirIndex 0xC1001234) = none := by
    rw [before.tables.tableAt_eq (pdirIndex_lt _), absent]
  have heap : InHeap 0xC1001234 := by decide
  have handled := pageFaultHandler_heap heap sampleContext.frame entered
  rw [mapNewFrame_packed_absent _ _ packedEntered room (by decide) absentEntered] at handled
  have providedEntered := before.provided running.provided
  have missingEntered : translate entered.mem 0xC1001234 = none := by
    rw [before.translate_eq, missing]
  obtain ⟨providedHandled, -, grown⟩ := providedEntered.grows missingEntered handled
  obtain ⟨next, left, -⟩ := exists_perform_sampleSides providedHandled (fun addr inside => by
    obtain ⟨physical, found⟩ := Option.ne_none_iff_exists'.mp (stack addr inside)
    rw [← before.translate_eq] at found
    rw [(grown addr inside.identityLimit_le physical found).1]
    exact Option.some_ne_none physical) 0xC1001234
  exact ⟨k, next, running, missing, servePageFault_eq_ok_iff.mpr ⟨entered, _, pushed, handled, left⟩⟩

theorem regions_roomyMap : (parseAndPrintE820Map roomyMap .empty).regions = [roomyRegion] := rfl

/-- A program that stores a word of the heap and loads it again. -/
def storeAndLoad : Program Word Interrupted Word Word :=
  .store 0xC1001234 sampleContext 7 (.load 0xC1001234 sampleContext .done)

theorem within_storeAndLoad : storeAndLoad.Within PagedWord (HasRoom 72) := by
  have inside : PagedWord 0xC1001234 ∧ HasRoom 72 sampleContext := by decide
  exact ⟨inside, inside, fun _ => trivial⟩

/-- The word that it loads is not below the stack pointer. -/
theorem remembers_storeAndLoad (flat : Word → Word) : storeAndLoad.Remembers (Overwritten 72) flat := by
  have above : ¬ Overwritten 72 sampleContext 0xC1001234 := by decide
  simp only [Program.Remembers, storeAndLoad, Program.runFlat, forget, if_neg above, Function.update_self,
    Option.isSome_some]

/-- It ends with what it stored. -/
theorem run_storeAndLoad_roomyRegion {map : List E820Entry}
    (single : (parseAndPrintE820Map map .empty).regions = [roomyRegion]) (mem : Word → Word) :
    ∃ k last, Running sampleImage (2 ^ 20 + 1) map (fun _ => 0) mem k ∧
      (kernelPager sampleSides sampleSides).run 1 storeAndLoad k = some (.ok (7, last)) := by
  obtain ⟨k, next, running, missing, served⟩ := exists_served_roomyRegion single mem
  obtain ⟨provided, present, -⟩ := running.provided.serves missing (by decide) served
  obtain ⟨physical, found⟩ := Option.ne_none_iff_exists'.mp present
  have lawful := lawful_kernelPager sampleSides sampleSides
  have still := (lawful.write next 0xC1001234 physical 7 provided within_storeAndLoad.1.1 found).2 0xC1001234
  have stored := (kernelPager sampleSides sampleSides).reach_fault missing served found 0
  have loaded := (kernelPager sampleSides sampleSides).reach_some sampleContext (still.trans found) 1
  have word : (kernelPager sampleSides sampleSides).read
      ((kernelPager sampleSides sampleSides).write next physical 7) physical = 7 := by
    rw [lawful.read_write, Function.update_self]
  refine ⟨k, (kernelPager sampleSides sampleSides).write next physical 7, running, ?_⟩
  simp only [storeAndLoad, Pager.run, stored, loaded, word]

/-- On the roomy map the program that stores and loads has the result it has on a flat memory. -/
theorem programs_run_flat_roomyMap :
    ∃ k last flat final, InService sampleSides sampleSides sampleImage (2 ^ 20 + 1) roomyMap (fun _ => 0)
        (fun _ => 0) k ∧
      (kernelPager sampleSides sampleSides).run 1 storeAndLoad k = some (.ok (7, last)) ∧
      storeAndLoad.runFlat (Overwritten 72) (full flat) = some (7, final) ∧
      (kernelPager sampleSides sampleSides).Shows PagedWord k (full flat) ∧
      (kernelPager sampleSides sampleSides).Shows PagedWord last final := by
  obtain ⟨k, last, running, ran⟩ := run_storeAndLoad_roomyRegion regions_roomyMap fun _ => 0
  have service : InService sampleSides sampleSides sampleImage (2 ^ 20 + 1) roomyMap (fun _ => 0)
      (fun _ => 0) k := .booted running
  obtain ⟨outcome, found, same⟩ := programs_run_flat service 0 storeAndLoad within_storeAndLoad
  cases ran.symm.trans found
  obtain ⟨flat, shown, final, runs, shownLast⟩ := same 7 last rfl fun flat _ => remembers_storeAndLoad flat
  exact ⟨k, last, flat, final, service, ran, runs, shown, shownLast⟩

/-- **Programs never touch a reserved word**, and nor does a fault that is served on their behalf, if
the word is not the kernel's own. Such are all words of the first megabyte, but for the directory and
the first table. -/
theorem programs_keep_reserved (service : InService enter leave image fuel map frameBitmap mem k)
    {restarts : ℕ} {program : Program Word Interrupted Word R}
    (within : program.Within PagedWord (HasRoom depth)) {result : R} {last : Kernel}
    (ran : (kernelPager enter leave).run (restarts + 1) program k = some (.ok (result, last)))
    {place : Word} (spared : own.Spares place) :
    (Reserved k place → Reserved last place ∧ last.mem place = k.mem place) ∧
      (place.toNat < 0x100000 → entryFrame place ≠ pageDirStartAddr →
        entryFrame place ≠ pageTableStartAddr → last.mem place = k.mem place) := by
  have kept (reserved : Reserved k place) : Keeps place (k.mem place) last := by
    have keeps : Keeps place (k.mem place) k := ⟨reserved, rfl⟩
    exact keeps.program spared service.provided within ran
  constructor
  · intro reserved
    exact ⟨(kept reserved).reserved, (kept reserved).same⟩
  · intro low notDirectory notFirstTable
    exact (kept (reserved_of_low service.provided.owned low notDirectory notFirstTable)).same

/-- The store and the load leave the first word of the kernel alone. -/
theorem programs_keep_reserved_roomyMap :
    ∃ k last, (kernelPager sampleSides sampleSides).run 1 storeAndLoad k = some (.ok (7, last)) ∧
      last.mem 0x10000 = k.mem 0x10000 := by
  obtain ⟨k, last, running, ran⟩ := run_storeAndLoad_roomyRegion regions_roomyMap fun _ => 0
  have kept := programs_keep_reserved (.booted running) within_storeAndLoad ran spares_sampleOwn
  exact ⟨k, last, ran, kept.2 (by decide) (by decide) (by decide)⟩

/-- The directory and the first table lie in the first megabyte. -/
theorem entryFrame_ne_of_high {place : Word} (high : 0x100000 ≤ place.toNat) :
    entryFrame place ≠ pageDirStartAddr ∧ entryFrame place ≠ pageTableStartAddr := by
  have above : 0x100000 ≤ (entryFrame place).toNat := by
    rw [toNat_entryFrame]
    omega
  constructor
  · intro directory
    rw [directory] at above
    exact absurd above (by decide)
  · intro firstTable
    rw [firstTable] at above
    exact absurd above (by decide)

/-- A word that is not available is reserved from the start, if no frame at risk is. -/
theorem reserved_of_unavailable {t : Pmm} (init : initFromMap fuel map frameBitmap = some t)
    (safe : ∀ frame, (parseAndPrintE820Map map .empty).AtRisk frame →
      FrameAvailable map (frame * 4096 % 2 ^ 32))
    {place : Word} (high : 0x100000 ≤ place.toNat) (unavailable : ¬ Available map place.toNat) :
    Reserved (setupPaging image t (.loaded frameBitmap mem)) place := by
  obtain ⟨notDirectory, notFirstTable⟩ := entryFrame_ne_of_high high
  refine ⟨fun offered => ?_, fun owner => not_owns_pagingInit _ owner _, notDirectory, notFirstTable⟩
  have atBoot : Offered (bootReservations image t) (place.toNat / 4096) := by
    obtain ⟨first, accessedFirst, marksFirst⟩ := exists_marks_pmmAllocFrame (bootReservations image t)
    obtain ⟨second, accessedSecond, marksSecond⟩ :=
      exists_marks_pmmAllocFrame (pmmAllocFrame (bootReservations image t)).2
    rw [pmm_setupPaging] at offered
    have reserving := marks_pmmReserveMemoryRegion image .pageTable
      (pmmAllocFrame (pmmAllocFrame (bootReservations image t)).2).2
    exact marksFirst.offered (marksSecond.offered (reserving.offered offered))
  have bound := place.isLt
  have counted : place.toNat / 4096 < t.totalFrames.toNat :=
    (marks_bootReservations image t).totalFrames ▸ atBoot.1
  have whole := frameAvailable_of_nextFrame init safe counted (by omega) atBoot.2
    (place.toNat % 4096) (Nat.mod_lt _ (by decide))
  have value : place.toNat / 4096 * 4096 % 2 ^ 32 + place.toNat % 4096 = place.toNat := by omega
  rw [value] at whole
  exact unavailable whole

/-- **Nothing is stored to memory that is not available.** If every frame at risk is made of available
memory, then boot, all faults since and any program leave every other word from 1 MiB on as the kernel
found it. -/
theorem programs_keep_unavailable (service : InService enter leave image fuel map frameBitmap mem k)
    (safe : ∀ frame, (parseAndPrintE820Map map .empty).AtRisk frame →
      FrameAvailable map (frame * 4096 % 2 ^ 32)) {restarts : ℕ}
    {program : Program Word Interrupted Word R} (within : program.Within PagedWord (HasRoom depth))
    {result : R} {last : Kernel}
    (ran : (kernelPager enter leave).run (restarts + 1) program k = some (.ok (result, last)))
    {place : Word} (high : 0x100000 ≤ place.toNat) (unavailable : ¬ Available map place.toNat) :
    last.mem place = mem place :=
  ((service.program within ran).keeps (own.spares_of_high high) fun _ init =>
    reserved_of_unavailable init safe high unavailable).same

def roomyTable : RegionTable := ⟨[roomyRegion], by decide⟩

/-- A table of one region of whole pages has no frame at risk. -/
theorem not_atRisk_roomyRegion {table : RegionTable} (single : table.regions = [roomyRegion]) (frame : ℕ) :
    ¬ table.AtRisk frame := by
  obtain ⟨regions, bounded⟩ := table
  obtain rfl : regions = [roomyRegion] := single
  change ¬ roomyTable.AtRisk frame
  intro risk
  have count : roomyTable.countBelow roomyTable.topFrame = 512 := by decide +kernel
  have top : roomyTable.topFrame = 768 := by decide
  have counted := risk.counted
  have high := risk.high
  rw [count] at counted
  rcases risk.exposed with ⟨-, region, listed, -, notFilled⟩ | outside
  · obtain rfl : region = roomyRegion := List.mem_singleton.mp listed
    refine absurd ?_ notFilled
    change 0x100000 ≤ 4096 * frame ∧ 4096 * frame + 4096 ≤ 0x300000
    omega
  · omega

/-- The store and the load leave a word behind the end of memory alone. -/
theorem programs_keep_unavailable_roomyMap :
    ∃ k last, Running sampleImage (2 ^ 20 + 1) roomyMap (fun _ => 0) (fun _ => 5) k ∧
      (kernelPager sampleSides sampleSides).run 1 storeAndLoad k = some (.ok (7, last)) ∧
      last.mem 0x400000 = 5 := by
  obtain ⟨k, last, running, ran⟩ := run_storeAndLoad_roomyRegion regions_roomyMap fun _ => 5
  have behind : ¬ Available roomyMap 0x400000 := by
    rintro ⟨entry, listed, -, -, below⟩
    rw [List.mem_singleton.mp listed] at below
    exact absurd below (by decide)
  exact ⟨k, last, running, ran, programs_keep_unavailable (.booted running)
    (fun frame risk => absurd risk (not_atRisk_roomyRegion regions_roomyMap frame)) within_storeAndLoad ran
    (by decide) behind⟩

end Programs

end KernelV.Memory
