import KernelV.Memory.PmmOperations

/-!
# Reserving several ranges

`kernel_main` reserves ranges that overlap, and some of them twice. One call of
`pmm_set_frame_bitmap` sets the bits of the frames it goes through and counts those that were
clear. A sequence of calls sets the bits of all their frames, and since a frame set by an
earlier call is not counted by a later one, it counts the frames that were clear before the
first call.

Neither depends on which call a frame comes from. So two sequences with the same ranges, in
whatever order and with whatever repetitions, end with the same bitmap and the same count
(`reserveAll_order`).
-/

set_option autoImplicit false

namespace KernelV.Memory

open Library

/-- Calls of `pmm_set_frame_bitmap` for the ranges of a list, one after the other. There is no
result when the loop of one of them does not end. -/
def reserveAll (ranges : List (Word × Word)) (s : Pmm) : Option Pmm :=
  ranges.foldlM (fun s range => setFrameLoop range.1 range.2 s) s

/-- The frames of all the ranges. -/
def rangeFrames (ranges : List (Word × Word)) : List ℕ :=
  ranges.flatMap fun range => framesBetween range.1 range.2

theorem setFrameLoop_eq_pmmSetFrameBitmap (start limit : Word) (s : Pmm) :
    setFrameLoop start limit s = some (pmmSetFrameBitmap start limit s) :=
  (Option.some_get (isSome_setFrameLoop start limit s)).symm

/-- **The calls all end, and together they mark the frames of all the ranges.** -/
theorem exists_marks_reserveAll (ranges : List (Word × Word)) (s : Pmm) :
    ∃ t, reserveAll ranges s = some t ∧ Marks (rangeFrames ranges) (rangeFrames ranges) s t := by
  induction ranges generalizing s with
  | nil => exact ⟨s, rfl, .refl s⟩
  | cons range ranges ih =>
      obtain ⟨t, ended, marks⟩ := ih (pmmSetFrameBitmap range.1 range.2 s)
      refine ⟨t, ?_, (marks_pmmSetFrameBitmap range.1 range.2 s).trans marks⟩
      rw [reserveAll, List.foldlM_cons, setFrameLoop_eq_pmmSetFrameBitmap]
      exact ended

/-- The frames that are counted do not depend on the order or the repetitions in the list. -/
theorem Pmm.newlyUsed_congr {frames other : List ℕ} (same : ∀ frame, frame ∈ other ↔ frame ∈ frames)
    (s : Pmm) : s.newlyUsed other = s.newlyUsed frames := by
  have sets : other.toFinset = frames.toFinset := by
    ext frame
    rw [List.mem_toFinset, List.mem_toFinset, same]
  rw [newlyUsed, newlyUsed, sets]

/-- Two steps that mark the same frames end with the same bytes and the same count. -/
theorem Marks.agree {frames other accessed accessed' : List ℕ} {s t t' : Pmm}
    (marks : Marks frames accessed s t) (marks' : Marks other accessed' s t')
    (same : ∀ frame, frame ∈ other ↔ frame ∈ frames) :
    t'.frameBitmap = t.frameBitmap ∧ t'.usedFrames = t.usedFrames := by
  constructor
  · refine cells_ext (by decide) fun frame => ?_
    have bit : t'.isUsed frame = t.isUsed frame := by
      rw [marks.isUsed, marks'.isUsed]
      simp only [same]
    exact bit
  · rw [marks.usedFrames, marks'.usedFrames, Pmm.newlyUsed_congr same]

theorem mem_rangeFrames_congr {ranges other : List (Word × Word)}
    (same : ∀ range, range ∈ other ↔ range ∈ ranges) (frame : ℕ) :
    frame ∈ rangeFrames other ↔ frame ∈ rangeFrames ranges := by
  simp only [rangeFrames, List.mem_flatMap, same]

/-- **Reservations do not depend on their order and can be repeated.** For every state, two lists
with the same ranges both end, with the same bitmap and the same number of used frames. -/
theorem reserveAll_order {ranges other : List (Word × Word)}
    (same : ∀ range, range ∈ other ↔ range ∈ ranges) (s : Pmm) :
    ∃ t t', reserveAll ranges s = some t ∧ reserveAll other s = some t' ∧
      t'.frameBitmap = t.frameBitmap ∧ t'.usedFrames = t.usedFrames := by
  obtain ⟨t, ended, marks⟩ := exists_marks_reserveAll ranges s
  obtain ⟨t', ended', marks'⟩ := exists_marks_reserveAll other s
  exact ⟨t, t', ended, ended', marks.agree marks' (mem_rangeFrames_congr same)⟩

/-- An overlapping, a wrapped and an inverted range, and the same ones in another order with the
first two repeated. -/
theorem reserveAll_order_overlapping :
    ∃ t t', reserveAll [(0x1800, 0x5000), (0x3000, 0xFFFFF801), (0x9000, 0x2000)] (.fresh fun _ => 0) =
        some t ∧
      reserveAll [(0x9000, 0x2000), (0x3000, 0xFFFFF801), (0x1800, 0x5000), (0x3000, 0xFFFFF801),
        (0x1800, 0x5000)] (.fresh fun _ => 0) = some t' ∧
      t'.frameBitmap = t.frameBitmap ∧ t'.usedFrames = t.usedFrames := by
  refine reserveAll_order (fun range => ?_) _
  simp only [List.mem_cons, List.not_mem_nil, or_false]
  tauto

end KernelV.Memory
