import Mathlib.Data.Finset.Card
import KernelV.Memory.Pmm

/-!
# What the allocator's operations do to the bitmap

Reserving and allocating only set bits. `Marks frames accessed s t` says that the
step from `s` to `t` set the bits of `frames`, counted those that were clear
before, and looked at the bits of `accessed`; it composes (`Marks.trans`). Every
operation that sets bits has one lemma of this form:

* `marks_pmmSetFrameBitmap` for a range,
* `marks_pmmReserveMemoryRegion` for the reserved types,
* `marks_pmmAllocFrame` for an allocation, which is the first-fit search over
  the frames from 1 below `totalFrames`.

`pmmFreeFrame` clears one bit (`isUsed_pmmFreeFrame`).
-/

set_option autoImplicit false

namespace KernelV.Memory

open Library

namespace Pmm

theorem isUsed_bitmapSet (s : Pmm) (idx frame : ℕ) :
    (s.bitmapSet idx).isUsed frame = (decide (frame = idx) || s.isUsed frame) :=
  getBit_setBit (by decide) s.frameBitmap idx frame

theorem isUsed_bitmapClear (s : Pmm) (idx frame : ℕ) :
    (s.bitmapClear idx).isUsed frame = (!decide (frame = idx) && s.isUsed frame) :=
  getBit_clearBit (by decide) s.frameBitmap idx frame

/-- How many of the listed frames are not yet used. -/
def newlyUsed (s : Pmm) (frames : List ℕ) : ℕ :=
  (frames.toFinset.filter (fun frame => s.isUsed frame = false)).card

end Pmm

theorem toNat_frameIndex (addr : Word) : (frameIndex addr).toNat = addr.toNat / 4096 := by
  rw [frameIndex, BitVec.toNat_udiv, toNat_pageSize]

/-! ## Steps that set bits -/

/-- The step from `s` to `t` sets the bits of `frames` and accesses the bits of
`accessed`. -/
structure Marks (frames accessed : List ℕ) (s t : Pmm) : Prop where
  isUsed : ∀ frame, t.isUsed frame = (decide (frame ∈ frames) || s.isUsed frame)
  usedFrames : t.usedFrames = s.usedFrames + BitVec.ofNat 32 (s.newlyUsed frames)
  totalFrames : t.totalFrames = s.totalFrames
  maxFrameIdx : t.maxFrameIdx = s.maxFrameIdx
  touched : ∀ byte, byte ∈ t.touched ↔ byte ∈ s.touched ∨ ∃ frame ∈ accessed, byte = frame / 8

namespace Marks

variable {frames accessed : List ℕ} {s t : Pmm}

/-- A frame that was used stays used. -/
theorem mono (marks : Marks frames accessed s t) {frame : ℕ} (used : s.isUsed frame = true) :
    t.isUsed frame = true := by
  rw [marks.isUsed, used, Bool.or_true]

theorem isUsed_of_mem (marks : Marks frames accessed s t) {frame : ℕ} (member : frame ∈ frames) :
    t.isUsed frame = true := by
  rw [marks.isUsed, decide_eq_true member, Bool.true_or]

/-- Setting bits that are set already changes no bit. -/
theorem isUsed_eq (marks : Marks frames accessed s t) (used : ∀ frame ∈ frames, s.isUsed frame = true)
    (frame : ℕ) : t.isUsed frame = s.isUsed frame := by
  rw [marks.isUsed]
  by_cases member : frame ∈ frames
  · rw [used frame member, Bool.or_true]
  · rw [decide_eq_false member, Bool.false_or]

theorem refl (s : Pmm) : Marks [] [] s s where
  isUsed _ := by simp
  usedFrames := by simp [Pmm.newlyUsed]
  totalFrames := rfl
  maxFrameIdx := rfl
  touched _ := by simp

theorem newlyUsed_append (marks : Marks frames accessed s t) (more : List ℕ) :
    s.newlyUsed (frames ++ more) = s.newlyUsed frames + t.newlyUsed more := by
  have disjoint : Disjoint (frames.toFinset.filter (fun frame => s.isUsed frame = false))
      (more.toFinset.filter (fun frame => t.isUsed frame = false)) := by
    rw [Finset.disjoint_left]
    intro frame inFirst inSecond
    simp only [Finset.mem_filter, List.mem_toFinset, marks.isUsed] at inFirst inSecond
    simp [inFirst.1] at inSecond
  rw [Pmm.newlyUsed, Pmm.newlyUsed, Pmm.newlyUsed, ← Finset.card_union_of_disjoint disjoint]
  congr 1
  ext frame
  simp only [Finset.mem_filter, Finset.mem_union, List.mem_toFinset, List.mem_append, marks.isUsed]
  by_cases member : frame ∈ frames <;> simp [member]

/-- **Two steps that set bits are one.** -/
theorem trans {more accessedMore : List ℕ} {u : Pmm} (first : Marks frames accessed s t)
    (second : Marks more accessedMore t u) :
    Marks (frames ++ more) (accessed ++ accessedMore) s u where
  isUsed frame := by
    rw [second.isUsed, first.isUsed, ← Bool.or_assoc]
    simp only [List.mem_append, Bool.decide_or, Bool.or_comm]
  usedFrames := by
    rw [second.usedFrames, first.usedFrames, first.newlyUsed_append, BitVec.ofNat_add,
      BitVec.add_assoc]
  totalFrames := second.totalFrames.trans first.totalFrames
  maxFrameIdx := second.maxFrameIdx.trans first.maxFrameIdx
  touched byte := by
    rw [second.touched, first.touched, or_assoc]
    simp only [List.mem_append, or_and_right, exists_or]

/-- A look at a bit that is set. -/
theorem touch (s : Pmm) (idx : ℕ) : Marks [] [idx] s (s.touch idx) where
  isUsed _ := by simp [Pmm.touch, Pmm.isUsed]
  usedFrames := by simp [Pmm.touch, Pmm.newlyUsed]
  totalFrames := rfl
  maxFrameIdx := rfl
  touched _ := by simp [Pmm.touch, or_comm]

/-- A bit found clear is set and counted. -/
theorem take {s : Pmm} {idx : ℕ} (free : s.isUsed idx = false) :
    Marks [idx] [idx] s
      { (s.touch idx).bitmapSet idx with usedFrames := (s.touch idx).usedFrames + 1 } where
  isUsed frame := by
    have := (s.touch idx).isUsed_bitmapSet idx frame
    simpa [Pmm.isUsed, Pmm.touch] using this
  usedFrames := by simp [Pmm.touch, Pmm.newlyUsed, Finset.filter_singleton, free]
  totalFrames := rfl
  maxFrameIdx := rfl
  touched byte := by
    simp only [Pmm.touch, Pmm.bitmapSet, List.mem_cons, List.not_mem_nil, or_false, exists_eq_left]
    rw [or_comm (a := byte ∈ s.touched), or_self_left]

/-- Listing a frame that is used already changes nothing. -/
theorem of_used {idx : ℕ} (marks : Marks [] accessed s t) (used : s.isUsed idx = true) :
    Marks [idx] accessed s t where
  isUsed frame := by
    rw [marks.isUsed]
    by_cases same : frame = idx
    · simp [same, used]
    · simp [same]
  usedFrames := by
    rw [marks.usedFrames]
    simp [Pmm.newlyUsed, Finset.filter_singleton, used]
  totalFrames := marks.totalFrames
  maxFrameIdx := marks.maxFrameIdx
  touched := marks.touched

end Marks

/-! ## Reserving a range -/

theorem marks_setFrameAt (addr : Word) (s : Pmm) :
    Marks [(frameIndex addr).toNat] [(frameIndex addr).toNat] s (setFrameAt addr s) := by
  rw [setFrameAt, Pmm.bitmapGet]
  cases bit : getBit s.frameBitmap (frameIndex addr).toNat with
  | false => exact .take bit
  | true => exact (Marks.touch s _).of_used bit

theorem marks_foldl_setFrameAt (addrs : List Word) (s : Pmm) :
    Marks (addrs.map fun addr => (frameIndex addr).toNat)
      (addrs.map fun addr => (frameIndex addr).toNat) s
      (addrs.foldl (fun s addr => setFrameAt addr s) s) := by
  induction addrs generalizing s with
  | nil => exact .refl s
  | cons addr addrs ih => exact (marks_setFrameAt addr s).trans (ih (setFrameAt addr s))

/-- The frames of a run of pages are consecutive. -/
theorem map_frameIndex_visited {count : ℕ} {start : Word}
    (fits : start.toNat + (count - 1) * 4096 < 2 ^ 32) :
    (visited pageSize count start).map (fun addr => (frameIndex addr).toNat) =
      List.range' (start.toNat / 4096) count := by
  have numbers := map_toNat_visited pageSize count start fits
  have frames : (visited pageSize count start).map (fun addr => (frameIndex addr).toNat) =
      ((visited pageSize count start).map BitVec.toNat).map (· / 4096) := by
    simp only [List.map_map, Function.comp_def, toNat_frameIndex]
  rw [frames, numbers, toNat_pageSize]
  apply List.ext_getElem
  · simp
  · intro k _ _
    simp only [List.getElem_map, List.getElem_range']
    omega

/-- The frames from the one of `start` to the one before the rounded end. -/
def framesBetween (start limit : Word) : List ℕ :=
  List.range' (start.toNat / 4096) ((limit.toNat + 4095) % 2 ^ 32 / 4096 - start.toNat / 4096)

theorem mem_framesBetween {start limit : Word} {frame : ℕ} :
    frame ∈ framesBetween start limit ↔
      start.toNat / 4096 ≤ frame ∧ frame < (limit.toNat + 4095) % 2 ^ 32 / 4096 := by
  rw [framesBetween, List.mem_range'_1]
  omega

theorem map_frameIndex_pagesBetween (start limit : Word) :
    (pagesBetween start limit).map (fun addr => (frameIndex addr).toNat) =
      framesBetween start limit := by
  have count : loopCount pageSize.toNat (roundStart start).toNat (roundEnd limit).toNat =
      (limit.toNat + 4095) % 2 ^ 32 / 4096 - start.toNat / 4096 := by
    rw [loopCount, toNat_pageSize, toNat_roundStart, toNat_roundEnd]
    omega
  rw [pagesBetween, map_frameIndex_visited, count, toNat_roundStart, framesBetween]
  · congr 1
    omega
  · rw [count, toNat_roundStart]
    omega

/-- **`pmm_set_frame_bitmap` marks the frames of its range.** -/
theorem marks_pmmSetFrameBitmap (start limit : Word) (s : Pmm) :
    Marks (framesBetween start limit) (framesBetween start limit) s
      (pmmSetFrameBitmap start limit s) := by
  have marks := marks_foldl_setFrameAt (pagesBetween start limit) s
  rw [map_frameIndex_pagesBetween] at marks
  have equal : pmmSetFrameBitmap start limit s =
      (pagesBetween start limit).foldl (fun s addr => setFrameAt addr s) s := by
    simp only [pmmSetFrameBitmap, setFrameLoop_eq, Option.get_some]
  rw [equal]
  exact marks

/-- The frames each reserved type stands for, given the size of the bitmap. -/
def reservedFrames (image : KernelImage) (maxFrameIdx : Word) : ReservedMemoryType → List ℕ
  | .init | .bios | .ivt | .vga => framesBetween 0 0x100000
  | .kernel => framesBetween kernelStart image.kernelEnd
  | .bitmap => framesBetween frameBitmapAddr (frameBitmapAddr + (maxFrameIdx / 8 + 1))
  | .pageTable =>
      framesBetween pageDirStartAddr (pageDirStartAddr + 4096) ++
        framesBetween pageTableStartAddr (pageTableStartAddr + 4096)

/-- The branch of `pmm_reserve_memory_region` that each type takes. -/
theorem pmmReserveMemoryRegion_eq (image : KernelImage) (reserved : ReservedMemoryType) (s : Pmm) :
    pmmReserveMemoryRegion image reserved s =
      match reserved with
      | .init | .bios | .ivt | .vga => pmmSetFrameBitmap 0 0x100000 s
      | .kernel => pmmSetFrameBitmap kernelStart image.kernelEnd s
      | .bitmap => pmmSetFrameBitmap frameBitmapAddr (frameBitmapAddr + (s.maxFrameIdx / 8 + 1)) s
      | .pageTable => pmmSetFrameBitmap pageTableStartAddr (pageTableStartAddr + 4096)
          (pmmSetFrameBitmap pageDirStartAddr (pageDirStartAddr + 4096) s) := by
  cases reserved <;> simp [pmmReserveMemoryRegion, ReservedMemoryType.flags, pageEntries]

/-- **`pmm_reserve_memory_region` marks the frames of its type.** -/
theorem marks_pmmReserveMemoryRegion (image : KernelImage) (reserved : ReservedMemoryType)
    (s : Pmm) :
    Marks (reservedFrames image s.maxFrameIdx reserved) (reservedFrames image s.maxFrameIdx reserved)
      s (pmmReserveMemoryRegion image reserved s) := by
  rw [pmmReserveMemoryRegion_eq]
  cases reserved with
  | init => exact marks_pmmSetFrameBitmap _ _ _
  | bios => exact marks_pmmSetFrameBitmap _ _ _
  | ivt => exact marks_pmmSetFrameBitmap _ _ _
  | vga => exact marks_pmmSetFrameBitmap _ _ _
  | kernel => exact marks_pmmSetFrameBitmap _ _ _
  | bitmap => exact marks_pmmSetFrameBitmap _ _ _
  | pageTable => exact (marks_pmmSetFrameBitmap _ _ _).trans (marks_pmmSetFrameBitmap _ _ _)

/-- The frames reserved at boot. -/
def bootFrames (image : KernelImage) (maxFrameIdx : Word) : List ℕ :=
  reservedFrames image maxFrameIdx .init ++ reservedFrames image maxFrameIdx .kernel ++
    reservedFrames image maxFrameIdx .bitmap

theorem marks_bootReservations (image : KernelImage) (s : Pmm) :
    Marks (bootFrames image s.maxFrameIdx) (bootFrames image s.maxFrameIdx) s
      (bootReservations image s) := by
  have first := marks_pmmReserveMemoryRegion image .init s
  have second := marks_pmmReserveMemoryRegion image .kernel (pmmReserveMemoryRegion image .init s)
  have third := marks_pmmReserveMemoryRegion image .bitmap
    (pmmReserveMemoryRegion image .kernel (pmmReserveMemoryRegion image .init s))
  rw [second.maxFrameIdx, first.maxFrameIdx] at third
  rw [first.maxFrameIdx] at second
  exact (first.trans second).trans third

/-! ## Allocating and freeing -/

/-- The search of `pmm_alloc_frame` is a first-fit search. -/
theorem marks_allocFrameLoop (left frameIdx : ℕ) (s : Pmm) :
    match firstFit s.isUsed left frameIdx with
    | some frame =>
        (allocFrameLoop left frameIdx s).1 = BitVec.ofNat 32 frame * pageSize ∧
          Marks [frame] (List.range' frameIdx (frame + 1 - frameIdx)) s
            (allocFrameLoop left frameIdx s).2
    | none =>
        (allocFrameLoop left frameIdx s).1 = 0 ∧
          Marks [] (List.range' frameIdx left) s (allocFrameLoop left frameIdx s).2 := by
  induction left generalizing frameIdx s with
  | zero => exact ⟨rfl, .refl s⟩
  | succ left ih =>
      rw [firstFit, allocFrameLoop, Pmm.bitmapGet]
      cases bit : getBit s.frameBitmap frameIdx with
      | false =>
          have free : s.isUsed frameIdx = false := bit
          simp only [free, Bool.false_eq_true, if_false, Nat.add_sub_cancel_left]
          exact ⟨trivial, .take bit⟩
      | true =>
          have used : s.isUsed frameIdx = true := bit
          have looked : (s.touch frameIdx).isUsed = s.isUsed := rfl
          simp only [used, if_true]
          specialize ih (frameIdx + 1) (s.touch frameIdx)
          rw [looked] at ih
          cases found : firstFit s.isUsed left (frameIdx + 1) with
          | none =>
              rw [found] at ih
              refine ⟨ih.1, ?_⟩
              rw [List.range'_succ]
              exact (Marks.touch s frameIdx).trans ih.2
          | some frame =>
              rw [found] at ih
              have above := ((firstFit_eq_some_iff _ _ _ _).mp found).1
              have split : frame + 1 - frameIdx = frame + 1 - (frameIdx + 1) + 1 := by omega
              refine ⟨ih.1, ?_⟩
              rw [split, List.range'_succ]
              exact (Marks.touch s frameIdx).trans ih.2

namespace Pmm

/-- The frame the next allocation takes. -/
def nextFrame (s : Pmm) : Option ℕ := firstFit s.isUsed (s.totalFrames.toNat - 1) 1

theorem nextFrame_eq_some_iff {s : Pmm} {frame : ℕ} :
    s.nextFrame = some frame ↔ 1 ≤ frame ∧ frame < s.totalFrames.toNat ∧ s.isUsed frame = false ∧
      ∀ other, 1 ≤ other → other < frame → s.isUsed other = true := by
  rw [nextFrame, firstFit_eq_some_iff]
  constructor
  · rintro ⟨above, below, rest⟩
    exact ⟨above, by omega, rest⟩
  · rintro ⟨above, below, rest⟩
    exact ⟨above, by omega, rest⟩

theorem nextFrame_eq_none_iff {s : Pmm} :
    s.nextFrame = none ↔
      ∀ other, 1 ≤ other → other < s.totalFrames.toNat → s.isUsed other = true := by
  rw [nextFrame, firstFit_eq_none_iff]
  constructor
  · exact fun all other above below => all other above (by omega)
  · exact fun all other above below => all other above (by omega)

end Pmm

/-- **An allocation that finds a frame returns its address and marks it.** -/
theorem marks_pmmAllocFrame {s : Pmm} {frame : ℕ} (found : s.nextFrame = some frame) :
    (pmmAllocFrame s).1 = BitVec.ofNat 32 frame * pageSize ∧
      Marks [frame] (List.range' 1 frame) s (pmmAllocFrame s).2 := by
  have spec := marks_allocFrameLoop (s.totalFrames.toNat - 1) 1 s
  rw [Pmm.nextFrame] at found
  rw [found] at spec
  exact spec

/-- An allocation that finds nothing returns 0 and changes no bit. -/
theorem marks_pmmAllocFrame_none {s : Pmm} (found : s.nextFrame = none) :
    (pmmAllocFrame s).1 = 0 ∧
      Marks [] (List.range' 1 (s.totalFrames.toNat - 1)) s (pmmAllocFrame s).2 := by
  have spec := marks_allocFrameLoop (s.totalFrames.toNat - 1) 1 s
  rw [Pmm.nextFrame] at found
  rw [found] at spec
  exact spec

/-- The address of a frame below `2 ^ 20`. -/
theorem toNat_frameAddr {frame : ℕ} (small : frame < 2 ^ 20) :
    (BitVec.ofNat 32 frame * pageSize).toNat = frame * 4096 := by
  simp only [pageSize]
  bv_omega

/-- An allocation, in one statement: it returns 0 without changing a bit, or it
takes the next frame. -/
theorem pmmAllocFrame_cases (s : Pmm) :
    (s.nextFrame = none ∧ (pmmAllocFrame s).1 = 0 ∧
        Marks [] (List.range' 1 (s.totalFrames.toNat - 1)) s (pmmAllocFrame s).2) ∨
      ∃ frame, s.nextFrame = some frame ∧
        (pmmAllocFrame s).1 = BitVec.ofNat 32 frame * pageSize ∧
        Marks [frame] (List.range' 1 frame) s (pmmAllocFrame s).2 := by
  cases found : s.nextFrame with
  | none => exact .inl ⟨rfl, marks_pmmAllocFrame_none found⟩
  | some frame => exact .inr ⟨frame, rfl, marks_pmmAllocFrame found⟩

/-- An allocation only sets bits. -/
theorem exists_marks_pmmAllocFrame (s : Pmm) :
    ∃ frames accessed, Marks frames accessed s (pmmAllocFrame s).2 := by
  rcases pmmAllocFrame_cases s with ⟨-, -, marks⟩ | ⟨_, -, -, marks⟩
  · exact ⟨_, _, marks⟩
  · exact ⟨_, _, marks⟩

theorem isUsed_pmmFreeFrame (addr : Word) (s : Pmm) (frame : ℕ) :
    (pmmFreeFrame addr s).isUsed frame =
      (!decide (frame = addr.toNat / 4096 ∧ frame < s.totalFrames.toNat) && s.isUsed frame) := by
  rw [pmmFreeFrame]
  split
  · rename_i below
    rw [BitVec.lt_def, toNat_frameIndex] at below
    have same : (frame = addr.toNat / 4096 ∧ frame < s.totalFrames.toNat) ↔
        frame = (frameIndex addr).toNat := by
      rw [toNat_frameIndex]
      omega
    simp only [same]
    exact s.isUsed_bitmapClear (frameIndex addr).toNat frame
  · rename_i above
    rw [BitVec.lt_def, toNat_frameIndex] at above
    have other : ¬(frame = addr.toNat / 4096 ∧ frame < s.totalFrames.toNat) := by omega
    simp [other]

theorem totalFrames_pmmFreeFrame (addr : Word) (s : Pmm) :
    (pmmFreeFrame addr s).totalFrames = s.totalFrames := by
  rw [pmmFreeFrame]
  split <;> rfl

theorem usedFrames_pmmFreeFrame {addr : Word} {s : Pmm}
    (below : addr.toNat / 4096 < s.totalFrames.toNat) :
    (pmmFreeFrame addr s).usedFrames = s.usedFrames - 1 := by
  have inside : frameIndex addr < s.totalFrames := by
    rw [BitVec.lt_def, toNat_frameIndex]
    exact below
  rw [pmmFreeFrame, if_pos inside]

theorem touched_pmmFreeFrame (addr : Word) (s : Pmm) :
    (pmmFreeFrame addr s).touched =
      if addr.toNat / 4096 < s.totalFrames.toNat then addr.toNat / 4096 / 8 :: s.touched
      else s.touched := by
  simp only [pmmFreeFrame, BitVec.lt_def, toNat_frameIndex]
  split
  · rfl
  · rfl

end KernelV.Memory
