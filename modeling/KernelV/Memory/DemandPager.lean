import KernelV.Library.HaltingRuns
import KernelV.Memory.BootFrames
import KernelV.Memory.DemandPaging

/-!
# What the fault handler is for

Seen from outside, demand paging hands the free frames to pages, in order. A fault that is answered
gives its page the next one. The first page in 4 MiB of addresses costs one more, for the table. A
fault for which no frame is left halts the machine, and so does one that is not answered.

`DemandPager` is that machine. It has no directory, no bitmap and no addresses of tables, only a
list of frames and two maps. From boot on it and the kernel are in lockstep under every sequence of
faults (`faults_refine_demandPager`). So how many faults memory lasts for can be counted on the
pager (`faults_answered_iff`).
-/

set_option autoImplicit false

namespace KernelV.Memory

open Library

/-! ## Frames for pages -/

/-- The free frames in order, the frame of each page above the identity-mapped memory, and the frame
of the table for each 1024 of them. -/
structure DemandPager where
  free : List ℕ
  frameOf : ℕ → Option ℕ
  tableOf : ℕ → Option ℕ

namespace DemandPager

/-- A page gets the next free frame, and its table the one behind where there is no table. A table
has to be one of the first 1024 frames. -/
def give (p : DemandPager) (page : ℕ) : Except DemandPager DemandPager :=
  match p.tableOf (page / 1024), p.free with
  | _, [] => .error p
  | some _, frame :: rest =>
      .ok { p with free := rest, frameOf := Function.update p.frameOf page (some frame) }
  | none, [_] => .error { p with free := [] }
  | none, frame :: table :: rest =>
      if table < 1024 then
        .ok {
          free := rest
          frameOf := Function.update p.frameOf page (some frame)
          tableOf := Function.update p.tableOf (page / 1024) (some table) }
      else .error { p with free := rest }

/-- A fault that is answered gives its page a frame, present or not. Any other halts the machine. -/
def fault (p : DemandPager) (fault : Fault) : Except DemandPager DemandPager :=
  if Recovers fault.faultAddress fault.frame then p.give (pageNumber fault.faultAddress) else .error p

/-- After boot the fifteen pages of the stack have their frames and one table. -/
def booted (first table : ℕ) (rest : List ℕ) : DemandPager where
  free := rest.drop 14
  frameOf page := if 0xC2FF1 ≤ page then (first :: rest.take 14)[page - 0xC2FF1]? else none
  tableOf index := if index = 779 then some table else none

end DemandPager

/-- What the pager says of a kernel. -/
structure Describes (p : DemandPager) (k : Kernel) : Prop where
  owned : Owned k
  ample : ∀ rounds, Ample rounds k.pmm
  free : k.pmm.freeList = p.free
  pages : ∀ addr, identityLimit ≤ addr →
    walk k.mem addr = (p.frameOf (pageNumber addr)).map frameEntry
  tables : ∀ index < pageEntries, index ≠ 0 →
    tableAt k.mem index = (p.tableOf index).map fun frame => BitVec.ofNat 32 frame * pageSize

/-! ## One page -/

theorem pdirIndex_ne_zero_of_high {addr : Word} (high : identityLimit ≤ addr) : pdirIndex addr ≠ 0 := by
  have above : ¬ pageNumber addr < 1024 := fun low => BitVec.not_lt.mpr high (pageNumber_lt_iff.mp low)
  rw [pdirIndex_eq]
  omega

/-- The allocations that follow take the next free frames. -/
theorem freeList_allocRounds (rounds : ℕ) (s : Pmm) :
    (allocRounds rounds s).freeList = s.freeList.drop rounds := by
  induction rounds with
  | zero => rfl
  | succ rounds ih =>
      rw [allocRounds_succ, freeList_pmmAllocFrame, ih, List.tail_drop]

namespace Describes

variable {p : DemandPager} {k : Kernel} (describes : Describes p k)
include describes

/-- Where the pager has a table, the directory has it. -/
theorem tableAt_pdirIndex {addr : Word} (high : identityLimit ≤ addr) :
    tableAt k.mem (pdirIndex addr) =
      (p.tableOf (pageNumber addr / 1024)).map fun frame => BitVec.ofNat 32 frame * pageSize := by
  rw [describes.tables _ (pdirIndex_lt addr) (pdirIndex_ne_zero_of_high high), pdirIndex_eq]

section NewFrame

variable {addr : Word} (high : identityLimit ≤ addr) {format : String} {arguments : List Word}

/-- One allocation or two are gone from the free frames. -/
theorem freeList_mapNewFrame {free : List ℕ} (left : ∀ rounds ≤ 1, p.free.drop (rounds + 1) = free) :
    (mapNewFrame addr format arguments k).state.pmm.freeList = free := by
  obtain ⟨rounds, few, pmm⟩ : ∃ rounds ≤ 1, (mapNewFrame addr format arguments k).state.pmm =
      allocRounds rounds (pmmAllocFrame k.pmm).2 :=
    pmm_mapNewFrame describes.owned (describes.ample 2) format arguments
  rw [pmm, freeList_allocRounds, freeList_pmmAllocFrame, describes.free, ← List.drop_one, List.drop_drop,
    Nat.add_comm]
  exact left rounds few

include high

/-- A machine that stops for a page has lost the frames it took, and nothing else. -/
theorem stopped {stopped : Kernel} (ran : mapNewFrame addr format arguments k = .error stopped) :
    Describes { p with free := stopped.pmm.freeList } stopped := by
  have owned := describes.owned.mapNewFrame (describes.ample 2) high format arguments
  have ample : ∀ rounds, Ample rounds (mapNewFrame addr format arguments k).state.pmm :=
    fun rounds => (describes.ample (rounds + 2)).mapNewFrame describes.owned format arguments
  have mem := mem_of_mapNewFrame_error describes.owned (describes.ample 2) ran
  rw [ran] at owned ample
  refine ⟨owned, ample, rfl, ?_, ?_⟩
  · rw [mem]
    exact describes.pages
  · rw [mem]
    exact describes.tables

/-- A page that was given a frame has it, and the others keep theirs. -/
theorem mapped {next : Kernel} {frame : ℕ} {rest : List ℕ} {tableOf : ℕ → Option ℕ}
    (ran : mapNewFrame addr format arguments k = .ok next)
    (maps : MapsPage addr (frameEntry frame) k.mem next.mem) (free : next.pmm.freeList = rest)
    (tables : ∀ index < pageEntries, index ≠ 0 → tableAt next.mem index =
      (tableOf index).map fun frame => BitVec.ofNat 32 frame * pageSize) :
    Describes ⟨rest, Function.update p.frameOf (pageNumber addr) (some frame), tableOf⟩ next := by
  have owned := describes.owned.mapNewFrame (describes.ample 2) high format arguments
  have ample : ∀ rounds, Ample rounds (mapNewFrame addr format arguments k).state.pmm :=
    fun rounds => (describes.ample (rounds + 2)).mapNewFrame describes.owned format arguments
  rw [ran] at owned ample
  refine ⟨owned, ample, free, fun other highOther => ?_, tables⟩
  change walk next.mem other =
    (Function.update p.frameOf (pageNumber addr) (some frame) (pageNumber other)).map frameEntry
  by_cases same : pageNumber other = pageNumber addr
  · rw [maps.walk_self (isPresent_pageEntry _ _) same, same, Function.update_self, Option.map_some]
  · rw [Function.update_of_ne same, maps.walk other same]
    exact describes.pages other highOther

/-- Halted machines lost the same frames. -/
theorem halts {free : List ℕ} {last : Kernel} (ran : mapNewFrame addr format arguments k = .error last)
    (left : last.pmm.freeList = free) :
    InLockstep Describes (.error { p with free }) (mapNewFrame addr format arguments k) := by
  have halted := describes.stopped high ran
  rw [left] at halted
  rw [ran]
  exact .halted halted

/-- Without a free frame both halt. -/
theorem give_nil (free : p.free = []) :
    InLockstep Describes (.error p) (mapNewFrame addr format arguments k) := by
  obtain ⟨last, ran, -⟩ := @mapNewFrame_nil k addr format arguments describes.owned.normal
    (describes.free.trans free)
  have left := @freeList_mapNewFrame p k describes addr format arguments [] fun rounds _ => by
    rw [free, List.drop_nil]
  rw [ran] at left
  have halted := describes.halts high ran left
  rw [← free] at halted
  exact halted

/-- A page with a table costs one frame. -/
theorem give_linked {table frame : ℕ} {rest : List ℕ}
    (found : p.tableOf (pageNumber addr / 1024) = some table) (free : p.free = frame :: rest) :
    InLockstep Describes
      (.ok { p with free := rest, frameOf := Function.update p.frameOf (pageNumber addr) (some frame) })
      (mapNewFrame addr format arguments k) := by
  have linked := describes.tableAt_pdirIndex high
  rw [found] at linked
  obtain ⟨next, ran, maps, left, same⟩ := @mapNewFrame_linked k addr format arguments describes.owned
    (describes.ample 2) _ linked frame rest (describes.free.trans free)
  rw [ran]
  refine .goesOn (describes.mapped high ran maps left fun index within notFirst => ?_)
  rw [same index within]
  exact describes.tables index within notFirst

section NewTable

variable (found : p.tableOf (pageNumber addr / 1024) = none) {frame : ℕ}
include found

theorem tableAt_eq_none : tableAt k.mem (pdirIndex addr) = none := by
  rw [describes.tableAt_pdirIndex high, found, Option.map_none]

/-- If the only free frame is for the page, both halt for the table. -/
theorem give_single (free : p.free = [frame]) :
    InLockstep Describes (.error { p with free := [] }) (mapNewFrame addr format arguments k) := by
  obtain ⟨last, ran, -⟩ := @mapNewFrame_single k addr format arguments describes.owned
    (describes.ample 2) (describes.tableAt_eq_none high found) frame (describes.free.trans free)
  have left := @freeList_mapNewFrame p k describes addr format arguments [] fun rounds _ => by
    rw [free, List.drop_succ_cons, List.drop_nil]
  rw [ran] at left
  exact describes.halts high ran left

variable {table : ℕ} {rest : List ℕ} (free : p.free = frame :: table :: rest)
include free

/-- A page without a table costs two frames, and the second is the table. -/
theorem give_absent (low : table < 1024) :
    InLockstep Describes
      (.ok {
        free := rest
        frameOf := Function.update p.frameOf (pageNumber addr) (some frame)
        tableOf := Function.update p.tableOf (pageNumber addr / 1024) (some table) })
      (mapNewFrame addr format arguments k) := by
  obtain ⟨next, ran, maps, left, same⟩ := @mapNewFrame_absent k addr format arguments describes.owned
    (describes.ample 2) (describes.tableAt_eq_none high found) frame table rest
    (describes.free.trans free) low
  rw [ran]
  refine .goesOn (describes.mapped high ran maps left fun index within notFirst => ?_)
  rw [same index within, ← pdirIndex_eq]
  by_cases here : index = pdirIndex addr
  · rw [if_pos here, here, Function.update_self, Option.map_some]
  · rw [if_neg here, Function.update_of_ne here]
    exact describes.tables index within notFirst

/-- If the second is out of reach, both halt with two frames less. -/
theorem give_high (outside : 1024 ≤ table) :
    InLockstep Describes (.error { p with free := rest }) (mapNewFrame addr format arguments k) := by
  have order := describes.free.trans free
  have ran := @mapNewFrame_high k addr format arguments describes.owned (describes.ample 2)
    (describes.tableAt_eq_none high found) frame table rest order outside
  have left : k.withFrame.withTableFrame.pmm.freeList = rest :=
    freeList_withFrame (freeList_withFrame order)
  exact describes.halts high ran left

end NewTable

/-- **Mapping a new frame is giving the page a frame.** -/
theorem give :
    InLockstep Describes (p.give (pageNumber addr)) (mapNewFrame addr format arguments k) := by
  cases free : p.free with
  | nil =>
      rw [DemandPager.give, free]
      cases p.tableOf (pageNumber addr / 1024) with
      | none => exact describes.give_nil high free
      | some table => exact describes.give_nil high free
  | cons frame others =>
      rw [DemandPager.give, free]
      cases found : p.tableOf (pageNumber addr / 1024) with
      | some table => exact describes.give_linked high found free
      | none =>
          cases others with
          | nil => exact describes.give_single high found free
          | cons table rest =>
              by_cases low : table < 1024
              · simp only [low, if_true]
                exact describes.give_absent high found free low
              · simp only [low, if_false]
                exact describes.give_high high found free (Nat.le_of_not_lt low)

end NewFrame

/-- **A fault that the handler takes is a fault of the pager.** -/
theorem fault (fault : Fault) :
    InLockstep Describes (p.fault fault) (pageFaultHandler fault.faultAddress fault.frame k) := by
  rw [DemandPager.fault]
  rcases pageFaultHandler_cases fault.faultAddress fault.frame k with
    ⟨recovers, high, format, arguments, result⟩ | ⟨rejected, result | ⟨physical, translated, result⟩⟩
  · rw [if_pos recovers, result]
    exact describes.give high
  · rw [if_neg rejected, result]
    exact .halted describes
  · have identity := translate_of_identityEntry (describes.owned.identity 0 (by decide))
    rw [identity, Option.some.injEq] at translated
    have same := describes.owned.sameTables_storeZero 123
    rw [if_neg rejected, result, ← translated]
    refine .halted ⟨describes.owned.sameTables same, describes.ample, describes.free, ?_, ?_⟩
    · intro addr high
      rw [same.walk_eq]
      exact describes.pages addr high
    · intro index within notFirst
      rw [same.tableAt_eq within]
      exact describes.tables index within notFirst

end Describes

/-! ## From boot on -/

theorem handleFaults_eq_foldlM (faults : List Fault) (k : Kernel) :
    handleFaults faults k =
      faults.foldlM (fun k fault => pageFaultHandler fault.faultAddress fault.frame k) k := by
  induction faults generalizing k with
  | nil => rfl
  | cons fault faults ih =>
      rw [handleFaults, List.foldlM_cons]
      exact bind_congr ih

/-- **So is every run of faults.** -/
theorem Describes.faults {p : DemandPager} {k : Kernel} (describes : Describes p k)
    (faults : List Fault) :
    InLockstep Describes (faults.foldlM DemandPager.fault p) (handleFaults faults k) := by
  rw [handleFaults_eq_foldlM]
  exact InLockstep.foldlM (fun _ _ fault describes => describes.fault fault) describes faults

/-- A page above the identity-mapped memory that the loop has mapped has its frame. -/
theorem MapsStack.walk_eq {first table : ℕ} {rest : List ℕ} {start last : Kernel}
    (maps : MapsStack stackOffsets (first :: rest) start last) (enough : 14 ≤ rest.length)
    (empty : ∀ addr, identityLimit ≤ addr → walk start.mem addr = none) {addr : Word}
    (high : identityLimit ≤ addr) :
    walk last.mem addr =
      ((DemandPager.booted first table rest).frameOf (pageNumber addr)).map frameEntry := by
  have numbers := pageNumber_stackOffsets
  change _ = (if 0xC2FF1 ≤ pageNumber addr then
    (first :: rest.take 14)[pageNumber addr - 0xC2FF1]? else none).map frameEntry
  by_cases inside : 0xC2FF1 ≤ pageNumber addr ∧ pageNumber addr < 0xC2FF1 + 15
  · obtain ⟨place, bound, number⟩ : ∃ place < 15, pageNumber addr = 0xC2FF1 + place :=
      ⟨pageNumber addr - 0xC2FF1, by omega, by omega⟩
    have found : (stackOffsets.map fun off => pageNumber (kernelStackBottomVirt + off))[place]? =
        some (0xC2FF1 + 1 * place) := by
      rw [numbers, List.getElem?_range' bound]
    rw [List.getElem?_map, Option.map_eq_some_iff, Nat.one_mul] at found
    obtain ⟨off, offset, page⟩ := found
    obtain ⟨frame, given⟩ : ∃ frame, (first :: rest)[place]? = some frame :=
      ⟨_, List.getElem?_eq_getElem (by rw [List.length_cons]; omega)⟩
    have member : (off, frame) ∈ stackOffsets.zip (first :: rest) :=
      List.mem_of_getElem? (List.getElem?_zip_eq_some.mpr ⟨offset, given⟩)
    have taken : ((first :: rest).take 15)[place]? = some frame :=
      (List.getElem?_take_of_lt bound).trans given
    rw [walk_congr last.mem (number.trans page.symm), maps.entries _ _ member, if_pos inside.1, number,
      Nat.add_sub_cancel_left]
    exact (congrArg (Option.map frameEntry) taken).symm
  · rw [maps.others addr fun off member same => inside ?_, empty addr high]
    · by_cases above : 0xC2FF1 ≤ pageNumber addr
      · have outside : (first :: rest.take 14).length ≤ pageNumber addr - 0xC2FF1 := by
          rw [List.length_cons, List.length_take]
          omega
        rw [if_pos above, List.getElem?_eq_none outside, Option.map_none]
      · rw [if_neg above, Option.map_none]
    · have listed : pageNumber addr ∈ List.range' 0xC2FF1 15 := by
        rw [← numbers, same]
        exact List.mem_map_of_mem member
      rw [List.mem_range'_1] at listed
      exact listed

/-- The pager that boot leaves describes the kernel that it leaves. -/
theorem describes_of_kernelMain {image : KernelImage} {fuel : ℕ} {map : List E820Entry}
    {frameBitmap : ℕ → BitVec 8} {mem : Word → Word} {t : Pmm}
    (init : initFromMap fuel map frameBitmap = some t) (count : t.totalFrames ≤ t.maxFrameIdx)
    {k : Kernel} (boot : kernelMain image fuel map (.loaded frameBitmap mem) = some (.ok k)) :
    ∃ first table rest,
      bootEnd (bootReservations image t).freeList = .switchesStack first table rest ∧
        Describes (.booted first table rest) k := by
  have booted : ∀ rounds, Owned k ∧ Ample rounds k.pmm := fun rounds =>
    owned_of_kernelMain init (ample_bootReservations init count _) boot
  obtain ⟨pmm, initialized, ended⟩ := kernelMain_eq_some_iff.mp boot
  obtain rfl : t = pmm := Option.some.inj (init.symm.trans initialized)
  have ran : mapStackPages stackOffsets (setupPaging image t (.loaded frameBitmap mem)) = .ok k :=
    ended.symm
  have goesOn : ∀ message, ¬ StopsWith
      (mapStackPages stackOffsets (setupPaging image t (.loaded frameBitmap mem))) message := by
    rintro message ⟨stopped, halts, -⟩
    rw [ran] at halts
    cases halts
  have loop := @stackEnds_setupPaging image _ _ _ _ init mem
  cases ends : bootEnd (bootReservations image t).freeList with
  | noStackFrame =>
      rw [ends] at loop
      exact absurd loop (goesOn _)
  | noTableFrame =>
      rw [ends] at loop
      exact absurd loop (goesOn _)
  | tableOutOfReach =>
      rw [ends] at loop
      exact absurd loop (goesOn _)
  | switchesStack first table rest =>
      rw [ends] at loop
      obtain ⟨last, reached, maps, free, linked⟩ := loop
      obtain rfl : k = last := Except.ok.inj (ran.symm.trans reached)
      have enough := le_length_of_switchesStack ends
      refine ⟨first, table, rest, rfl, (booted 0).1, fun rounds => (booted rounds).2, free,
        fun addr high => maps.walk_eq enough (fun addr high => ?_) high, fun index within notFirst => ?_⟩
      · refine (refines_pagingInit _).unmapped addr (if_neg fun low => ?_)
        exact BitVec.not_lt.mpr high (pageNumber_lt_iff.mp low)
      · rw [linked index within, tableAt_setupPaging image t (.loaded frameBitmap mem) within,
          if_neg notFirst]
        change _ = (if index = 779 then some table else none).map _
        split
        · rfl
        · rfl

/-- **Demand paging hands out the free frames in order.** On every memory map whose frames can all be
named, boot leaves a kernel that the pager describes, and any sequence of faults takes both through
the same frames, pages and tables, and halts both or neither. -/
theorem faults_refine_demandPager {image : KernelImage} {fuel : ℕ} {map : List E820Entry}
    {frameBitmap : ℕ → BitVec 8} {mem : Word → Word} {t : Pmm}
    (init : initFromMap fuel map frameBitmap = some t) (count : t.totalFrames ≤ t.maxFrameIdx)
    {k : Kernel} (boot : kernelMain image fuel map (.loaded frameBitmap mem) = some (.ok k)) :
    ∃ first table rest,
      bootEnd (bootReservations image t).freeList = .switchesStack first table rest ∧
        ∀ faults : List Fault, InLockstep Describes
          (faults.foldlM DemandPager.fault (.booted first table rest)) (handleFaults faults k) := by
  obtain ⟨first, table, rest, ends, start⟩ := describes_of_kernelMain init count boot
  exact ⟨first, table, rest, ends, start.faults⟩

/-- On the roomy map the stack takes the frames from 258 on. -/
theorem bootEnd_roomyMap {t : Pmm} (init : initFromMap (2 ^ 20 + 1) roomyMap (fun _ => 0) = some t) :
    bootEnd (bootReservations sampleImage t).freeList =
      .switchesStack 258 259 (List.range' 260 252) := by
  obtain ⟨total, -, packed⟩ := (initialized_of_pmmInit init).2.packed_of_region sampleImage
    (show (parseAndPrintE820Map roomyMap .empty).regions = [_] from rfl) le_rfl
    (show _ = 256 * 4096 from rfl) (show _ = (256 + 512) * 4096 from rfl)
  have counted : (bootReservations sampleImage t).totalFrames.toNat = 512 := by
    rw [(marks_bootReservations sampleImage t).totalFrames, total]
  rw [packed.freeList (by omega), counted]
  change bootEnd (256 :: 257 :: 258 :: 259 :: List.range' 260 252) = _
  rw [bootEnd, if_neg (by decide), if_neg]
  rw [List.length_range']
  decide

/-- On the roomy map two faults in the heap take the frames 274 and 276, with a table in 275. -/
theorem faults_refine_demandPager_roomyMap :
    ∃ k p, kernelMain sampleImage (2 ^ 20 + 1) roomyMap (.loaded (fun _ => 0) fun _ => 0) = some (.ok k) ∧
      InLockstep Describes (.ok p)
        (handleFaults [⟨0xC1001234, zeroStack⟩, ⟨0xC1002000, zeroStack⟩] k) ∧
      p.frameOf 0xC1001 = some 274 ∧ p.frameOf 0xC1002 = some 276 ∧ p.tableOf 772 = some 275 := by
  obtain ⟨t, k, init, count, boot, -⟩ := kernelMain_roomyMap
  obtain ⟨first, table, rest, ends, lockstep⟩ := faults_refine_demandPager init count boot
  rw [bootEnd_roomyMap init] at ends
  cases ends
  exact ⟨k, _, boot, lockstep [⟨0xC1001234, zeroStack⟩, ⟨0xC1002000, zeroStack⟩], rfl, rfl, rfl⟩

/-! ## How many faults memory lasts for -/

/-- The 4 MiB of addresses around a fault. -/
def Fault.part (fault : Fault) : ℕ := pageNumber fault.faultAddress / 1024

/-- The parts of the address space that faults need a table for. -/
def DemandPager.newTables (p : DemandPager) (faults : List Fault) : Finset ℕ :=
  (faults.map Fault.part).toFinset.filter fun part => p.tableOf part = none

namespace DemandPager

variable {p : DemandPager} {fault : Fault} {faults : List Fault}

theorem newTables_cons_of_some {table : ℕ} (found : p.tableOf fault.part = some table) :
    p.newTables (fault :: faults) = p.newTables faults := by
  rw [newTables, List.map_cons, List.toFinset_cons, Finset.filter_insert, if_neg]
  · rfl
  · rw [found]
    exact Option.some_ne_none table

/-- A part that has got its table needs none any more. -/
theorem card_newTables_cons_of_none (found : p.tableOf fault.part = none) (free : List ℕ)
    (frameOf : ℕ → Option ℕ) (table : ℕ) :
    (p.newTables (fault :: faults)).card =
      (newTables ⟨free, frameOf, Function.update p.tableOf fault.part (some table)⟩ faults).card + 1 := by
  have member : fault.part ∈ p.newTables (fault :: faults) := by
    rw [newTables, Finset.mem_filter, List.map_cons, List.toFinset_cons]
    exact ⟨Finset.mem_insert_self _ _, found⟩
  have rest : newTables ⟨free, frameOf, Function.update p.tableOf fault.part (some table)⟩ faults =
      (p.newTables (fault :: faults)).erase fault.part := by
    ext part
    rw [newTables, newTables, List.map_cons, List.toFinset_cons, Finset.mem_erase, Finset.mem_filter,
      Finset.mem_filter, Finset.mem_insert]
    change _ ∧ Function.update p.tableOf fault.part (some table) part = none ↔ _
    by_cases here : part = fault.part
    · rw [here, Function.update_self]
      simp
    · rw [Function.update_of_ne here]
      simp [here]
  rw [rest, Finset.card_erase_add_one member]

/-- **A run goes on to its end when there is a frame for each fault and one for each new table.** -/
theorem goesOn_iff (answered : ∀ fault ∈ faults, Recovers fault.faultAddress fault.frame)
    (low : ∀ frame ∈ p.free, frame < 1024) :
    (∃ last, faults.foldlM DemandPager.fault p = .ok last) ↔
      faults.length + (p.newTables faults).card ≤ p.free.length := by
  induction faults generalizing p with
  | nil =>
      rw [List.foldlM_nil]
      exact iff_of_true ⟨p, rfl⟩ (Nat.zero_le _)
  | cons fault faults ih =>
      have answeredRest : ∀ fault ∈ faults, Recovers fault.faultAddress fault.frame :=
        fun other member => answered other (List.mem_cons_of_mem _ member)
      have given : p.fault fault = p.give (pageNumber fault.faultAddress) :=
        if_pos (answered fault List.mem_cons_self)
      have halts {stopped : DemandPager} (stops : p.fault fault = .error stopped) :
          ¬ ∃ last, (fault :: faults).foldlM DemandPager.fault p = .ok last := by
        rintro ⟨last, ran⟩
        rw [List.foldlM_cons, stops] at ran
        cases ran
      have goesOn {next : DemandPager} (ran : p.fault fault = .ok next) :
          (fault :: faults).foldlM DemandPager.fault p = faults.foldlM DemandPager.fault next := by
        rw [List.foldlM_cons, ran]
        rfl
      rw [give] at given
      rw [List.length_cons]
      cases free : p.free with
      | nil =>
          rw [free] at given
          have stops : p.fault fault = .error p := by rw [given]
          refine iff_of_false (halts stops) ?_
          rw [List.length_nil]
          omega
      | cons frame others =>
          rw [free] at given low
          cases found : p.tableOf fault.part with
          | some table =>
              have linked : p.tableOf (pageNumber fault.faultAddress / 1024) = some table := found
              rw [linked] at given
              rw [goesOn given, ih answeredRest fun other member => low other (List.mem_cons_of_mem _ member),
                newTables_cons_of_some found, List.length_cons]
              change faults.length + (p.newTables faults).card ≤ others.length ↔ _
              omega
          | none =>
              have absent : p.tableOf (pageNumber fault.faultAddress / 1024) = none := found
              rw [absent] at given
              cases others with
              | nil =>
                  refine iff_of_false (halts given) ?_
                  rw [@card_newTables_cons_of_none p fault faults found [] p.frameOf 0, List.length_singleton]
                  omega
              | cons table rest =>
                  have lowTable : table < 1024 := low table (by simp)
                  simp only [lowTable, if_true] at given
                  rw [goesOn given, ih answeredRest fun other member => low other (by simp [member]),
                    @card_newTables_cons_of_none p fault faults found rest
                      (Function.update p.frameOf (pageNumber fault.faultAddress) (some frame)) table,
                    List.length_cons, List.length_cons]
                  change faults.length + (newTables ⟨_, _, Function.update p.tableOf fault.part _⟩ faults).card ≤
                    rest.length ↔ _
                  omega

end DemandPager

/-- The parts that a kernel has no table for are those of its pager. -/
theorem Describes.newTables_eq {p : DemandPager} {k : Kernel} (describes : Describes p k)
    {faults : List Fault} (answered : ∀ fault ∈ faults, Recovers fault.faultAddress fault.frame) :
    p.newTables faults =
      (faults.map Fault.part).toFinset.filter fun part => tableAt k.mem part = none := by
  refine Finset.filter_congr fun part member => ?_
  rw [List.mem_toFinset, List.mem_map] at member
  obtain ⟨fault, taken, rfl⟩ := member
  have found := describes.tableAt_pdirIndex (answered fault taken).identityLimit_le
  rw [pdirIndex_eq] at found
  rw [Fault.part, found, Option.map_eq_none_iff]

/-- **How many faults memory lasts for.** In every state that faults lead to after boot, with all
free frames in the first 4 MiB, a sequence of faults that the handler recovers from is answered to
its end exactly if there is a free frame for each of them and one for each 4 MiB without a table. -/
theorem faults_answered_iff {image : KernelImage} {fuel : ℕ} {map : List E820Entry}
    {frameBitmap : ℕ → BitVec 8} {mem : Word → Word} {t : Pmm}
    (init : initFromMap fuel map frameBitmap = some t) (count : t.totalFrames ≤ t.maxFrameIdx)
    {k : Kernel} (boot : kernelMain image fuel map (.loaded frameBitmap mem) = some (.ok k))
    {before : List Fault} {mid : Kernel} (reached : handleFaults before k = .ok mid)
    (low : ∀ frame ∈ mid.pmm.freeList, frame < 1024) {faults : List Fault}
    (answered : ∀ fault ∈ faults, Recovers fault.faultAddress fault.frame) :
    (∃ last, handleFaults faults mid = .ok last) ↔
      faults.length +
          ((faults.map Fault.part).toFinset.filter fun part => tableAt mid.mem part = none).card ≤
        mid.pmm.freeList.length := by
  obtain ⟨first, table, rest, -, start⟩ := describes_of_kernelMain init count boot
  obtain ⟨p, -, describes⟩ := (reached ▸ start.faults before).of_ok
  rw [describes.free] at low ⊢
  rw [← describes.newTables_eq answered, ← (describes.faults faults).goesOn_iff]
  exact p.goesOn_iff answered low

/-- On the roomy map two faults in the heap are answered. -/
theorem faults_answered_iff_roomyMap :
    ∃ k, kernelMain sampleImage (2 ^ 20 + 1) roomyMap (.loaded (fun _ => 0) fun _ => 0) = some (.ok k) ∧
      ∃ last, handleFaults [⟨0xC1001234, zeroStack⟩, ⟨0xC1002000, zeroStack⟩] k = .ok last := by
  obtain ⟨t, k, init, count, boot, -⟩ := kernelMain_roomyMap
  obtain ⟨first, table, rest, ends, describes⟩ := describes_of_kernelMain init count boot
  rw [bootEnd_roomyMap init] at ends
  cases ends
  have free : k.pmm.freeList = (List.range' 260 252).drop 14 := describes.free
  have low : ∀ frame ∈ k.pmm.freeList, frame < 1024 := by
    intro frame member
    rw [free] at member
    have listed := List.mem_of_mem_drop member
    rw [List.mem_range'_1] at listed
    omega
  have answered : ∀ fault ∈ [(⟨0xC1001234, zeroStack⟩ : Fault), ⟨0xC1002000, zeroStack⟩],
      Recovers fault.faultAddress fault.frame := by decide
  refine ⟨k, boot, (@faults_answered_iff sampleImage _ _ _ _ _ init count _ boot [] k rfl low _
    answered).mpr ?_⟩
  have tables := Finset.card_filter_le
    (([(⟨0xC1001234, zeroStack⟩ : Fault), ⟨0xC1002000, zeroStack⟩].map Fault.part).toFinset)
    fun part => tableAt k.mem part = none
  have parts : (([(⟨0xC1001234, zeroStack⟩ : Fault), ⟨0xC1002000, zeroStack⟩].map
    Fault.part).toFinset).card = 1 := by decide
  rw [free, List.length_drop, List.length_range', List.length_cons, List.length_singleton]
  omega

end KernelV.Memory
