import KernelV.Memory.PmmRuns

/-!
# Frees and the count of used frames

`pmm_free_frame` checks the index of the frame against the count of frames and
nothing else. A client that frees only what it owns never notices: the counter
`used_frames` is then the number of frames that were free after `pmm_init` and are
used now, in every state of every run (`usedFrames_exact`).

For any other address the check is not enough. A call has no effect exactly when the
index is not below the count (`pmmFreeFrame_rejects_iff`), so a second free of a frame
is counted again and a frame reserved at boot is given back
(`pmmFreeFrame_reserved_sampleTable`).
-/

set_option autoImplicit false

namespace KernelV.Memory

open Library

/-! ## The frames in use since a given state -/

/-- The frames that are free in `start` and used in `s`. -/
def spentFrames (start s : Pmm) : Finset ℕ :=
  (Finset.range (2 ^ 20)).filter fun frame => start.isUsed frame = false ∧ s.isUsed frame = true

section Spent

variable {start s t : Pmm}

theorem mem_spentFrames {frame : ℕ} :
    frame ∈ spentFrames start s ↔
      frame < 2 ^ 20 ∧ start.isUsed frame = false ∧ s.isUsed frame = true := by
  rw [spentFrames, Finset.mem_filter, Finset.mem_range]

theorem spentFrames_self : spentFrames s s = ∅ := by
  refine Finset.eq_empty_of_forall_notMem fun frame member => ?_
  obtain ⟨-, free, used⟩ := mem_spentFrames.mp member
  rw [free] at used
  exact absurd used (by decide)

theorem card_spentFrames_le : (spentFrames start s).card ≤ 2 ^ 20 := by
  calc (spentFrames start s).card ≤ (Finset.range (2 ^ 20)).card := Finset.card_filter_le _ _
    _ = 2 ^ 20 := Finset.card_range _

/-- A step that sets bits spends the frames whose bits it changes. -/
theorem card_spentFrames_marks {frames accessed : List ℕ} (marks : Marks frames accessed s t)
    (small : ∀ frame ∈ frames, frame < 2 ^ 20)
    (clear : ∀ frame, s.isUsed frame = false → start.isUsed frame = false) :
    (spentFrames start t).card = (spentFrames start s).card + s.newlyUsed frames := by
  have disjoint : Disjoint (spentFrames start s)
      (frames.toFinset.filter fun frame => s.isUsed frame = false) := by
    rw [Finset.disjoint_left]
    intro frame spent unused
    have used := (mem_spentFrames.mp spent).2.2
    rw [(Finset.mem_filter.mp unused).2] at used
    exact absurd used (by decide)
  rw [Pmm.newlyUsed, ← Finset.card_union_of_disjoint disjoint]
  refine congrArg Finset.card (Finset.ext fun frame => ?_)
  rw [Finset.mem_union, mem_spentFrames, mem_spentFrames, Finset.mem_filter, List.mem_toFinset,
    marks.isUsed]
  cases bit : s.isUsed frame with
  | true => simp
  | false =>
      have free := clear frame bit
      constructor
      · rintro ⟨-, -, set⟩
        exact .inr ⟨by simpa using set, rfl⟩
      · rintro (⟨-, -, set⟩ | ⟨member, -⟩)
        · exact absurd set (by decide)
        · exact ⟨small frame member, free, by simpa using member⟩

/-- A free gives one frame back. -/
theorem spentFrames_pmmFreeFrame {addr : Word}
    (below : addr.toNat / 4096 < s.totalFrames.toNat) :
    spentFrames start (pmmFreeFrame addr s) = (spentFrames start s).erase (addr.toNat / 4096) := by
  ext frame
  rw [Finset.mem_erase, mem_spentFrames, mem_spentFrames, isUsed_pmmFreeFrame]
  by_cases same : frame = addr.toNat / 4096
  · simp [same, below]
  · simp [same]

end Spent

/-! ## Runs that free what they own -/

namespace Session

/-- One call of a client that frees only what it owns and marks only ranges below the
given frame. -/
inductive BoundedStep (maxFrameIdx : Word) : Session → Session → Prop where
  | alloc (s : Session) :
      BoundedStep maxFrameIdx s ⟨(pmmAllocFrame s.pmm).2, record (pmmAllocFrame s.pmm).1 s.live⟩
  | free (s : Session) (addr : Word) (owned : addr ∈ s.live) :
      BoundedStep maxFrameIdx s ⟨pmmFreeFrame addr s.pmm, s.live.erase addr⟩
  | setFrameBitmap (s : Session) (start limit : Word)
      (below : limit.toNat ≤ maxFrameIdx.toNat * 4096) :
      BoundedStep maxFrameIdx s ⟨pmmSetFrameBitmap start limit s.pmm, s.live⟩

abbrev BoundedRun (maxFrameIdx : Word) : Session → Session → Prop :=
  Relation.ReflTransGen (BoundedStep maxFrameIdx)

/-- What every such run from `start` keeps. -/
structure Accounted (start : Pmm) (s : Session) : Prop where
  total : s.pmm.totalFrames = start.totalFrames
  clear : ∀ frame, s.pmm.isUsed frame = false → start.isUsed frame = false
  outside : ∀ frame, start.maxFrameIdx.toNat ≤ frame → s.pmm.isUsed frame = start.isUsed frame
  live : ∀ addr ∈ s.live, addr.toNat % 4096 = 0 ∧
    addr.toNat / 4096 < start.totalFrames.toNat ∧
    addr.toNat / 4096 ∈ spentFrames start s.pmm
  distinct : s.live.Nodup
  used : s.pmm.usedFrames.toNat = (spentFrames start s.pmm).card

section Steps

variable {start : Pmm} {s : Session}

theorem accounted_start (init : start.usedFrames = 0) : Accounted start ⟨start, []⟩ where
  total := rfl
  clear _ free := free
  outside _ _ := rfl
  live _ member := absurd member List.not_mem_nil
  distinct := List.nodup_nil
  used := by
    rw [spentFrames_self, init]
    rfl

/-- Setting bits below the highest frame is counted. -/
theorem Accounted.marks (accounted : Accounted start s) {frames accessed : List ℕ} {t : Pmm}
    (marks : Marks frames accessed s.pmm t) (small : start.maxFrameIdx.toNat < 2 ^ 20)
    (below : ∀ frame ∈ frames, frame < start.maxFrameIdx.toNat) : Accounted start ⟨t, s.live⟩ where
  total := marks.totalFrames.trans accounted.total
  clear frame free := by
    refine accounted.clear frame ?_
    by_contra used
    rw [Bool.not_eq_false] at used
    have still : t.isUsed frame = true := marks.mono used
    rw [still] at free
    exact absurd free (by decide)
  outside frame above := by
    have other : frame ∉ frames := fun member => absurd (below frame member) (by omega)
    rw [← accounted.outside frame above]
    change t.isUsed frame = _
    rw [marks.isUsed, decide_eq_false other, Bool.false_or]
  live addr member := by
    obtain ⟨aligned, counted, spent⟩ := accounted.live addr member
    obtain ⟨bound, free, used⟩ := mem_spentFrames.mp spent
    exact ⟨aligned, counted, mem_spentFrames.mpr ⟨bound, free, marks.mono used⟩⟩
  distinct := accounted.distinct
  used := by
    have spent := card_spentFrames_marks marks
      (fun frame member => (below frame member).trans small) accounted.clear
    have bound : (spentFrames start t).card ≤ 2 ^ 20 := card_spentFrames_le
    change t.usedFrames.toNat = (spentFrames start t).card
    rw [marks.usedFrames, BitVec.toNat_add, BitVec.toNat_ofNat, accounted.used]
    omega

/-- A free of an owned frame is counted. -/
theorem Accounted.free (accounted : Accounted start s) {addr : Word} (owned : addr ∈ s.live)
    (count : start.totalFrames ≤ start.maxFrameIdx) :
    Accounted start ⟨pmmFreeFrame addr s.pmm, s.live.erase addr⟩ := by
  obtain ⟨aligned, counted, spent⟩ := accounted.live addr owned
  have below : addr.toNat / 4096 < s.pmm.totalFrames.toNat := by
    rw [accounted.total]
    exact counted
  have erased : spentFrames start (pmmFreeFrame addr s.pmm) =
      (spentFrames start s.pmm).erase (addr.toNat / 4096) := spentFrames_pmmFreeFrame below
  refine ⟨?_, fun frame free => ?_, fun frame above => ?_, fun kept member => ?_, ?_, ?_⟩
  · exact (totalFrames_pmmFreeFrame addr s.pmm).trans accounted.total
  · by_cases same : frame = addr.toNat / 4096
    · rw [same]
      exact (mem_spentFrames.mp spent).2.1
    · refine accounted.clear frame ?_
      change (pmmFreeFrame addr s.pmm).isUsed frame = false at free
      simpa [isUsed_pmmFreeFrame, same] using free
  · have other : ¬(frame = addr.toNat / 4096 ∧ frame < s.pmm.totalFrames.toNat) := by
      rw [BitVec.le_def] at count
      omega
    rw [← accounted.outside frame above]
    change (pmmFreeFrame addr s.pmm).isUsed frame = _
    rw [isUsed_pmmFreeFrame, decide_eq_false other]
    rfl
  · obtain ⟨different, member⟩ := accounted.distinct.mem_erase_iff.mp member
    obtain ⟨alignedKept, countedKept, spentKept⟩ := accounted.live kept member
    refine ⟨alignedKept, countedKept, ?_⟩
    change _ ∈ spentFrames start (pmmFreeFrame addr s.pmm)
    rw [erased]
    refine Finset.mem_erase.mpr ⟨fun same => different ?_, spentKept⟩
    exact BitVec.eq_of_toNat_eq (by omega)
  · exact accounted.distinct.erase addr
  · change (pmmFreeFrame addr s.pmm).usedFrames.toNat =
      (spentFrames start (pmmFreeFrame addr s.pmm)).card
    have positive : 0 < (spentFrames start s.pmm).card := Finset.card_pos.mpr ⟨_, spent⟩
    have used := accounted.used
    have bound := s.pmm.usedFrames.isLt
    have one : (1 : Word).toNat = 1 := rfl
    rw [erased, Finset.card_erase_of_mem spent, usedFrames_pmmFreeFrame below, BitVec.toNat_sub, one]
    omega

/-- An allocation is counted. -/
theorem Accounted.alloc (accounted : Accounted start s) (small : start.maxFrameIdx.toNat < 2 ^ 20)
    (count : start.totalFrames ≤ start.maxFrameIdx) :
    Accounted start ⟨(pmmAllocFrame s.pmm).2, record (pmmAllocFrame s.pmm).1 s.live⟩ := by
  rcases pmmAllocFrame_cases s.pmm with ⟨-, zero, marks⟩ | ⟨frame, found, address, marks⟩
  · rw [zero, record, if_pos rfl]
    exact accounted.marks marks small (by simp)
  · obtain ⟨positive, counted, free, -⟩ := Pmm.nextFrame_eq_some_iff.mp found
    rw [accounted.total] at counted
    rw [BitVec.le_def] at count
    have value := toNat_frameAddr (show frame < 2 ^ 20 by omega)
    have notZero : BitVec.ofNat 32 frame * pageSize ≠ 0 := by
      intro zero
      rw [zero] at value
      change 0 = frame * 4096 at value
      omega
    have kept : Accounted start ⟨(pmmAllocFrame s.pmm).2, s.live⟩ :=
      accounted.marks marks small fun other member => by
        rw [List.mem_singleton.mp member]
        omega
    rw [address, record, if_neg notZero]
    refine ⟨kept.total, kept.clear, kept.outside, fun addr member => ?_, ?_, kept.used⟩
    · rcases List.mem_cons.mp member with rfl | member
      · rw [value, Nat.mul_div_cancel _ (by decide)]
        refine ⟨by omega, counted, mem_spentFrames.mpr ⟨by omega, accounted.clear frame free, ?_⟩⟩
        exact marks.isUsed_of_mem (by simp)
      · exact kept.live addr member
    · refine List.nodup_cons.mpr ⟨fun member => ?_, accounted.distinct⟩
      -- The frames of the live addresses have their bits set.
      have used := (mem_spentFrames.mp (accounted.live _ member).2.2).2.2
      rw [value, Nat.mul_div_cancel _ (by decide), free] at used
      exact absurd used (by decide)

/-- **Every call keeps the count exact.** -/
theorem BoundedStep.accounted {t : Session} (step : BoundedStep start.maxFrameIdx s t)
    (small : start.maxFrameIdx.toNat < 2 ^ 20) (count : start.totalFrames ≤ start.maxFrameIdx)
    (accounted : Accounted start s) : Accounted start t := by
  cases step with
  | alloc => exact accounted.alloc small count
  | free addr owned => exact accounted.free owned count
  | setFrameBitmap first limit below =>
      refine accounted.marks (marks_pmmSetFrameBitmap first limit s.pmm) small fun frame member => ?_
      have bound := (mem_framesBetween.mp member).2
      have largest := limit.isLt
      omega

theorem BoundedRun.accounted {t : Session} (run : BoundedRun start.maxFrameIdx s t)
    (small : start.maxFrameIdx.toNat < 2 ^ 20) (count : start.totalFrames ≤ start.maxFrameIdx)
    (accounted : Accounted start s) : Accounted start t := by
  induction run with
  | refl => exact accounted
  | tail _ step ih => exact step.accounted small count ih

end Steps

end Session

/-- No more frames can be spent than `pmm_init` counted. -/
theorem Session.Accounted.card_le {table : RegionTable} {frameBitmap : ℕ → BitVec 8} {start : Pmm}
    {s : Session} (accounted : s.Accounted start) (init : Initialized table frameBitmap start) :
    (spentFrames start s.pmm).card ≤ start.totalFrames.toNat := by
  have met : spentFrames start s.pmm ⊆
      (table.frames.filter fun frame => decide (frame < table.topFrame)).toFinset := by
    intro frame spent
    obtain ⟨-, free, used⟩ := mem_spentFrames.mp spent
    have below : frame < table.topFrame := by
      by_contra above
      rw [accounted.outside frame (by rw [init.maxFrameIdx]; omega), free] at used
      exact absurd used (by decide)
    rw [List.mem_toFinset, List.mem_filter]
    exact ⟨((init.isUsed_eq_false_iff (by omega)).mp free).1, decide_eq_true below⟩
  calc (spentFrames start s.pmm).card
      ≤ (table.frames.filter fun frame => decide (frame < table.topFrame)).toFinset.card :=
        Finset.card_le_card met
    _ ≤ (table.frames.filter fun frame => decide (frame < table.topFrame)).length :=
        List.toFinset_card_le _
    _ = start.totalFrames.toNat := by
        rw [init.totalFrames, RegionTable.countBelow, List.countP_eq_length_filter]

/-- **The count of used frames is exact in every run.** After `pmm_init` and any calls
that mark ranges below the highest frame, allocate, and free what was allocated, it is
the number of frames that were free after `pmm_init` and are used now, and it does not
exceed the count of frames. -/
theorem usedFrames_exact {table : RegionTable} {frameBitmap : ℕ → BitVec 8} {fuel : ℕ} {t : Pmm}
    (init : pmmInit fuel table (.fresh frameBitmap) = some t)
    (count : t.totalFrames ≤ t.maxFrameIdx) {s : Session}
    (run : Session.BoundedRun t.maxFrameIdx ⟨t, []⟩ s) :
    s.pmm.usedFrames.toNat = (spentFrames t s.pmm).card ∧ s.pmm.usedFrames ≤ s.pmm.totalFrames := by
  have result := (initialized_of_pmmInit init).2
  have accounted : s.Accounted t :=
    run.accounted result.maxFrameIdx_lt count (Session.accounted_start result.usedFrames)
  refine ⟨accounted.used, ?_⟩
  rw [BitVec.le_def, accounted.used, accounted.total]
  exact accounted.card_le result

/-- On the sample table marking the first megabyte leaves the frames from 256 on free. -/
theorem packed_setFrameBitmap_sampleTable {t : Pmm} (init : Initialized sampleTable (fun _ => 0) t) :
    Packed 256 (pmmSetFrameBitmap 0 0x100000 t) := by
  obtain ⟨-, -, packed⟩ := packed_sampleTable init
  have booted := marks_bootReservations sampleImage t
  have marks := marks_pmmSetFrameBitmap 0 0x100000 t
  refine ⟨by decide, fun frame _ low => marks.isUsed_of_mem ?_, fun frame high counted => ?_⟩
  · rw [mem_framesBetween]
    change 0 ≤ frame ∧ frame < 256
    exact ⟨Nat.zero_le _, low⟩
  · have outside : frame ∉ framesBetween 0 0x100000 := by
      rw [mem_framesBetween]
      change ¬ (0 ≤ frame ∧ frame < 256)
      omega
    rw [marks.totalFrames, ← booted.totalFrames] at counted
    have free : t.isUsed frame = false := by
      by_contra used
      have bootFree := packed.free frame high counted
      rw [booted.mono (Bool.eq_true_of_not_eq_false used)] at bootFree
      cases bootFree
    rw [marks.isUsed, free]
    simpa using outside

/-- On the sample table: the first megabyte is marked, the frames 256 and 257 are taken, and the first
of them is given back. -/
theorem usedFrames_exact_sampleTable :
    ∃ t s, pmmInit (2 ^ 20 + 1) sampleTable (.fresh fun _ => 0) = some t ∧
      t.totalFrames ≤ t.maxFrameIdx ∧ Session.BoundedRun t.maxFrameIdx ⟨t, []⟩ s ∧
      s.live = [0x101000] ∧ s.pmm.usedFrames.toNat = (spentFrames t s.pmm).card ∧
      s.pmm.usedFrames ≤ s.pmm.totalFrames := by
  obtain ⟨t, init⟩ := exists_pmmInit sampleTable (by decide) (.fresh fun _ => 0)
  have result := (initialized_of_pmmInit init).2
  obtain ⟨total, top, -⟩ := packed_sampleTable result
  have count : t.totalFrames ≤ t.maxFrameIdx := by
    rw [BitVec.le_def]
    omega
  have below : (0x100000 : Word).toNat ≤ t.maxFrameIdx.toNat * 4096 := by
    rw [top]
    decide
  have counted : (pmmSetFrameBitmap 0 0x100000 t).totalFrames.toNat = 272 := by
    rw [(marks_pmmSetFrameBitmap 0 0x100000 t).totalFrames]
    exact total
  have marked : Session.BoundedRun t.maxFrameIdx ⟨t, []⟩ ⟨pmmSetFrameBitmap 0 0x100000 t, []⟩ :=
    .single (.setFrameBitmap _ 0 0x100000 below)
  have packed := packed_setFrameBitmap_sampleTable result
  generalize pmmSetFrameBitmap 0 0x100000 t = s at counted marked packed
  obtain ⟨first, packed⟩ := packed.alloc (by omega)
  obtain ⟨second, -⟩ := packed.alloc (by rw [totalFrames_pmmAllocFrame]; omega)
  have firstAddress : (pmmAllocFrame s).1 = 0x100000 := (marks_pmmAllocFrame first).1
  have secondAddress : (pmmAllocFrame (pmmAllocFrame s).2).1 = 0x101000 := (marks_pmmAllocFrame second).1
  have taken := (marked.tail (.alloc _)).tail (.alloc _)
  rw [firstAddress, secondAddress] at taken
  have held : (0x100000 : Word) ∈ [(0x101000 : Word), 0x100000] := by decide
  have back := taken.tail (.free _ 0x100000 held)
  exact ⟨t, _, init, count, back, rfl, usedFrames_exact init count back⟩

/-! ## Frees of anything -/

namespace Session

/-- One call of a client that may free any address. What it frees it no longer
holds. -/
inductive AnyStep : Session → Session → Prop where
  | alloc (s : Session) :
      AnyStep s ⟨(pmmAllocFrame s.pmm).2, record (pmmAllocFrame s.pmm).1 s.live⟩
  | free (s : Session) (addr : Word) :
      AnyStep s ⟨pmmFreeFrame addr s.pmm,
        s.live.filter fun other => frameIndex other ≠ frameIndex addr⟩

abbrev AnyRun : Session → Session → Prop := Relation.ReflTransGen AnyStep

/-- The frame of the address was handed out and has not been freed since. -/
def Holds (s : Session) (addr : Word) : Prop := ∃ other ∈ s.live, frameIndex other = frameIndex addr

theorem AnyRun.totalFrames {s t : Session} (run : AnyRun s t) :
    t.pmm.totalFrames = s.pmm.totalFrames := by
  induction run with
  | refl => rfl
  | tail _ step ih =>
      rw [← ih]
      cases step with
      | alloc => exact totalFrames_pmmAllocFrame _
      | free addr => exact totalFrames_pmmFreeFrame addr _

end Session

/-- A free has no effect exactly when the index of the frame is not below the count. -/
theorem pmmFreeFrame_eq_self_iff {addr : Word} {s : Pmm} :
    pmmFreeFrame addr s = s ↔ s.totalFrames ≤ frameIndex addr := by
  rw [pmmFreeFrame]
  split
  · rename_i below
    refine ⟨fun same => ?_, fun above => absurd below (BitVec.not_lt.mpr above)⟩
    have counter : s.usedFrames - 1 = s.usedFrames := congrArg Pmm.usedFrames same
    exact absurd counter (by bv_omega)
  · rename_i above
    exact ⟨fun _ => BitVec.not_lt.mp above, fun _ => rfl⟩

/-- **A free of a frame that is not held is without effect if and only if the index of
the frame is not below the count**, in every state that allocations and frees of any
addresses lead to after boot. -/
theorem pmmFreeFrame_rejects_iff {image : KernelImage} {table : RegionTable}
    {frameBitmap : ℕ → BitVec 8} {fuel : ℕ} {t : Pmm}
    (init : pmmInit fuel table (.fresh frameBitmap) = some t) {s : Session}
    (run : Session.AnyRun ⟨bootReservations image t, []⟩ s) (addr : Word) :
    (pmmFreeFrame addr s.pmm ≠ s.pmm → s.Holds addr) ↔
      s.Holds addr ∨ table.countBelow table.topFrame ≤ addr.toNat / 4096 := by
  have result := (initialized_of_pmmInit init).2
  have total : s.pmm.totalFrames.toNat = table.countBelow table.topFrame := by
    have booted : (bootReservations image t).totalFrames = t.totalFrames :=
      (marks_bootReservations image t).totalFrames
    rw [run.totalFrames, booted, result.totalFrames]
  rw [← total, ← toNat_frameIndex, ← BitVec.le_def, ← pmmFreeFrame_eq_self_iff]
  constructor
  · intro rejects
    by_cases same : pmmFreeFrame addr s.pmm = s.pmm
    · exact .inr same
    · exact .inl (rejects same)
  · rintro (held | same) changes
    · exact held
    · exact absurd same changes

/-- On the sample table the first free of the frame that was handed out is of one that is held, and the
second is not, but has its effect. -/
theorem pmmFreeFrame_rejects_sampleTable :
    ∃ (t : Pmm) (taken freed : Session), pmmInit (2 ^ 20 + 1) sampleTable (.fresh fun _ => 0) = some t ∧
      Session.AnyRun ⟨bootReservations sampleImage t, []⟩ taken ∧ taken.live = [0x100000] ∧
      (pmmFreeFrame 0x100000 taken.pmm ≠ taken.pmm → taken.Holds 0x100000) ∧
      freed = ⟨pmmFreeFrame 0x100000 taken.pmm, []⟩ ∧
      ¬ (pmmFreeFrame 0x100000 freed.pmm ≠ freed.pmm → freed.Holds 0x100000) := by
  obtain ⟨t, init⟩ := exists_pmmInit sampleTable (by decide) (.fresh fun _ => 0)
  obtain ⟨total, top, packed⟩ := packed_sampleTable (initialized_of_pmmInit init).2
  have booted : (bootReservations sampleImage t).totalFrames.toNat = 272 := by
    rw [(marks_bootReservations sampleImage t).totalFrames, total]
  obtain ⟨first, -⟩ := packed.alloc (by omega)
  have address : (pmmAllocFrame (bootReservations sampleImage t)).1 = 0x100000 :=
    (marks_pmmAllocFrame first).1
  have taken : Session.AnyRun ⟨bootReservations sampleImage t, []⟩
      ⟨_, Session.record (pmmAllocFrame (bootReservations sampleImage t)).1 []⟩ := .single (.alloc _)
  rw [address] at taken
  have freed := taken.tail (.free _ 0x100000)
  have holds : Session.Holds ⟨(pmmAllocFrame (bootReservations sampleImage t)).2,
      Session.record 0x100000 []⟩ 0x100000 := ⟨0x100000, List.mem_singleton_self _, rfl⟩
  refine ⟨t, _, _, init, taken, rfl, (pmmFreeFrame_rejects_iff init taken 0x100000).mpr (.inl holds), rfl,
    fun rejects => ?_⟩
  rcases (pmmFreeFrame_rejects_iff init freed 0x100000).mp rejects with ⟨other, member, -⟩ | outside
  · exact absurd member List.not_mem_nil
  · have count : sampleTable.countBelow sampleTable.topFrame = 272 := by decide +kernel
    rw [count] at outside
    exact absurd outside (by decide)

/-- A free of frame 1 right after boot clears its bit, although boot has reserved the
frame and nothing was ever handed out. The next allocation returns it. -/
theorem pmmFreeFrame_reserved_sampleTable :
    ∃ t, pmmInit (2 ^ 20 + 1) sampleTable (.fresh fun _ => 0) = some t ∧
      ¬ Session.Holds ⟨bootReservations sampleImage t, []⟩ 0x1000 ∧
      (bootReservations sampleImage t).isUsed 1 = true ∧
      (pmmFreeFrame 0x1000 (bootReservations sampleImage t)).isUsed 1 = false ∧
      (pmmFreeFrame 0x1000 (bootReservations sampleImage t)).usedFrames =
        (bootReservations sampleImage t).usedFrames - 1 ∧
      (pmmAllocFrame (pmmFreeFrame 0x1000 (bootReservations sampleImage t))).1 = 0x1000 := by
  obtain ⟨t, init⟩ := exists_pmmInit sampleTable (by decide) (.fresh fun _ => 0)
  have result := (initialized_of_pmmInit init).2
  obtain ⟨total, top, -⟩ := packed_sampleTable result
  have count : (bootReservations sampleImage t).totalFrames.toNat = 272 := by
    rw [(marks_bootReservations sampleImage t).totalFrames, total]
  have used : (bootReservations sampleImage t).isUsed 1 = true := by
    rw [isUsed_bootReservations result.maxFrameIdx_lt]
    rfl
  have cleared : (pmmFreeFrame 0x1000 (bootReservations sampleImage t)).isUsed 1 = false := by
    rw [isUsed_pmmFreeFrame, count]
    rfl
  have found : (pmmFreeFrame 0x1000 (bootReservations sampleImage t)).nextFrame = some 1 := by
    rw [Pmm.nextFrame_eq_some_iff, totalFrames_pmmFreeFrame, count]
    exact ⟨le_rfl, by decide, cleared, fun frame above below => by omega⟩
  refine ⟨t, init, ?_, used, cleared, ?_, (marks_pmmAllocFrame found).1⟩
  · rintro ⟨other, member, -⟩
    exact absurd member List.not_mem_nil
  · rw [pmmFreeFrame, if_pos]
    rw [BitVec.lt_def, count]
    decide

end KernelV.Memory
