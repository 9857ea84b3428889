import KernelV.Memory.FrameAccounting

/-!
# Reserving a range of addresses

`pmm_set_frame_bitmap` should use up the frames that a range meets, count those that were
free, and leave the other bits alone. It rounds the end of the range up to a page boundary
with an addition, and in the last page of the address space the sum wraps around to zero. The
loop then makes no pass at all.

So a range is reserved exactly when it ends at or below that page, or when all its frames
were used before (`reserves_iff`).
-/

set_option autoImplicit false

namespace KernelV.Memory

open Library

/-- Some address of the frame lies in the range. -/
def MeetsRange (start limit : Word) (frame : ℕ) : Prop :=
  ∃ addr, start.toNat ≤ addr ∧ addr < limit.toNat ∧ addr / 4096 = frame

theorem meetsRange_iff {start limit : Word} (ordered : start < limit) {frame : ℕ} :
    MeetsRange start limit frame ↔ start.toNat / 4096 ≤ frame ∧ frame * 4096 < limit.toNat := by
  rw [BitVec.lt_def] at ordered
  constructor
  · rintro ⟨addr, above, below, rfl⟩
    omega
  · rintro ⟨above, below⟩
    by_cases first : frame = start.toNat / 4096
    · exact ⟨start.toNat, le_rfl, ordered, first.symm⟩
    · exact ⟨frame * 4096, by omega, below, Nat.mul_div_cancel frame (by decide)⟩

/-- From `s` to `t` the frames of a range were used up, and those that were free were
counted. -/
structure ReservesRange (start limit : Word) (s t : Pmm) : Prop where
  bits : ∀ frame, t.isUsed frame = true ↔ s.isUsed frame = true ∨ MeetsRange start limit frame
  count : t.usedFrames = s.usedFrames +
    BitVec.ofNat 32 ((Finset.range (2 ^ 20)).filter fun frame => t.isUsed frame ≠ s.isUsed frame).card

/-- Below the last page the rounded range has the frames that the range meets. -/
theorem mem_framesBetween_iff_meetsRange {start limit : Word} (ordered : start < limit)
    (below : limit.toNat ≤ 0xFFFFF000) {frame : ℕ} :
    frame ∈ framesBetween start limit ↔ MeetsRange start limit frame := by
  rw [mem_framesBetween, meetsRange_iff ordered]
  omega

/-- In the last page the rounded end wraps around, and nothing is left of the range. -/
theorem framesBetween_of_lastPage (start : Word) {limit : Word} (last : 0xFFFFF000 < limit.toNat) :
    framesBetween start limit = [] := by
  refine List.eq_nil_iff_forall_not_mem.mpr fun frame member => ?_
  have bound := limit.isLt
  rw [mem_framesBetween] at member
  omega

/-- The bits that a step changes are the ones it counts. -/
theorem Marks.card_changed {frames accessed : List ℕ} {s t : Pmm} (marks : Marks frames accessed s t)
    (small : ∀ frame ∈ frames, frame < 2 ^ 20) :
    ((Finset.range (2 ^ 20)).filter fun frame => t.isUsed frame ≠ s.isUsed frame).card =
      s.newlyUsed frames := by
  refine congrArg Finset.card (Finset.ext fun frame => ?_)
  rw [Finset.mem_filter, Finset.mem_range, Finset.mem_filter, List.mem_toFinset, marks.isUsed]
  constructor
  · rintro ⟨-, changed⟩
    by_cases member : frame ∈ frames
    · refine ⟨member, ?_⟩
      simpa [member] using changed
    · simp [member] at changed
  · rintro ⟨member, free⟩
    exact ⟨small frame member, by simp [member, free]⟩

/-- **A range is reserved exactly when it ends at or below the last page, or when all its frames
were used before.** -/
theorem reserves_iff {start limit : Word} (ordered : start < limit) (s : Pmm) :
    ReservesRange start limit s (pmmSetFrameBitmap start limit s) ↔
      limit.toNat ≤ 0xFFFFF000 ∨ ∀ frame, MeetsRange start limit frame → s.isUsed frame = true := by
  have marks := marks_pmmSetFrameBitmap start limit s
  have count := marks.card_changed fun frame member => by
    have bound := limit.isLt
    rw [mem_framesBetween] at member
    omega
  have counted := marks.usedFrames
  rw [← count] at counted
  by_cases below : limit.toNat ≤ 0xFFFFF000
  · refine iff_of_true ⟨fun frame => ?_, counted⟩ (.inl below)
    rw [marks.isUsed, Bool.or_eq_true, decide_eq_true_iff,
      mem_framesBetween_iff_meetsRange ordered below, or_comm]
  · have same (frame : ℕ) : (pmmSetFrameBitmap start limit s).isUsed frame = s.isUsed frame := by
      rw [marks.isUsed, framesBetween_of_lastPage start (Nat.lt_of_not_le below)]
      rfl
    constructor
    · refine fun reserves => .inr fun frame meets => ?_
      rw [← same]
      exact (reserves.bits frame).mpr (.inr meets)
    · rintro (impossible | used)
      · exact absurd impossible below
      · refine ⟨fun frame => ?_, counted⟩
        rw [same]
        exact ⟨.inl, fun either => either.elim id (used frame)⟩

/-- An unaligned range of three frames. -/
theorem reserves_unaligned :
    (0x1800 : Word) < 0x3001 ∧
      ReservesRange 0x1800 0x3001 (.fresh fun _ => 0)
        (pmmSetFrameBitmap 0x1800 0x3001 (.fresh fun _ => 0)) :=
  ⟨by decide, (reserves_iff (by decide) _).mpr (.inl (by decide))⟩

/-- Half of the last page is not reserved. -/
theorem not_reserves_lastPage :
    ¬ ReservesRange 0xFFFFF000 0xFFFFF800 (.fresh fun _ => 0)
      (pmmSetFrameBitmap 0xFFFFF000 0xFFFFF800 (.fresh fun _ => 0)) := by
  intro reserves
  have meets : MeetsRange 0xFFFFF000 0xFFFFF800 0xFFFFF :=
    ⟨0xFFFFF000, by decide, by decide, by decide⟩
  have used := (reserves.bits 0xFFFFF).mpr (.inr meets)
  rw [(marks_pmmSetFrameBitmap 0xFFFFF000 0xFFFFF800 _).isUsed,
    framesBetween_of_lastPage 0xFFFFF000 (by decide)] at used
  exact absurd used (by decide)

end KernelV.Memory
