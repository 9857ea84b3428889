import KernelV.Library.SlotPool
import KernelV.Memory.PmmRuns
import KernelV.Memory.ReservationOrder

/-!
# The allocator as a pool of frames

`pmm_reserve_memory_region` takes a mask of types, and each bit is a branch of its own.
Reserving several masks one after the other is the same as reserving their union at once
(`reserveMasks_union`).

With its four functions the frame allocator is a pool whose slots are the frames: the free
ones are those with a clear bit, and `used_frames` is the count, modulo `2 ^ 32`. Frames are
taken from 1 on, but frame 0 can be given back. In every sequence of calls, on any state and
with any arguments, the addresses returned are the answers of the pool
(`pmm_answers`).

For a client that frees only what it allocated, the pool says that nothing is lost: the
frames that are used are those used before and those it holds. When it holds none, all later
calls are answered as if it had never been there (`borrowed_frames`).
-/

set_option autoImplicit false

namespace KernelV.Memory

open Library

/-! ## Masks of reserved types -/

/-- `pmm_reserve_memory_region`, for any value of its argument. -/
def pmmReserveMask (image : KernelImage) (mask : Word) (s : Pmm) : Pmm :=
  let has := fun flag : ReservedMemoryType => mask &&& flag.flags
  let s := if has .init ||| has .bios ||| has .ivt ||| has .vga ≠ 0 then
    pmmSetFrameBitmap 0 0x100000 s else s
  let s := if has .kernel ≠ 0 then pmmSetFrameBitmap kernelStart image.kernelEnd s else s
  let s := if has .bitmap ≠ 0 then
    let bitmapBytes := s.maxFrameIdx / 8 + 1
    pmmSetFrameBitmap frameBitmapAddr (frameBitmapAddr + bitmapBytes) s else s
  if has .pageTable ≠ 0 then
    let tableBytes := BitVec.ofNat 32 (pageEntries * 4)
    let s := pmmSetFrameBitmap pageDirStartAddr (pageDirStartAddr + tableBytes) s
    pmmSetFrameBitmap pageTableStartAddr (pageTableStartAddr + tableBytes) s
  else s

/-- The constants are masks. -/
theorem pmmReserveMask_flags (image : KernelImage) (reserved : ReservedMemoryType) (s : Pmm) :
    pmmReserveMask image reserved.flags s = pmmReserveMemoryRegion image reserved s := rfl

/-- The frames of the types in a mask. -/
def maskFrames (image : KernelImage) (maxFrameIdx mask : Word) : List ℕ :=
  [ReservedMemoryType.init, .kernel, .bitmap, .pageTable].flatMap fun reserved =>
    if mask &&& reserved.flags ≠ 0 then reservedFrames image maxFrameIdx reserved else []

/-- A step behind a test. -/
theorem Marks.branch {frames : List ℕ} {s t : Pmm} (marks : Marks frames frames s t) (test : Prop)
    [Decidable test] :
    Marks (if test then frames else []) (if test then frames else []) s (if test then t else s) := by
  split
  case isTrue => exact marks
  case isFalse => exact .refl s

/-- Every bit below 1 MiB stands for the same range. -/
theorem initBits (mask : Word) :
    mask &&& ReservedMemoryType.init.flags ||| mask &&& ReservedMemoryType.bios.flags |||
        mask &&& ReservedMemoryType.ivt.flags ||| mask &&& ReservedMemoryType.vga.flags =
      mask &&& ReservedMemoryType.init.flags := by
  rw [← BitVec.and_or_distrib_left, ← BitVec.and_or_distrib_left, ← BitVec.and_or_distrib_left]
  rfl

/-- The branch of one type. -/
theorem marks_branch (image : KernelImage) (mask : Word) (reserved : ReservedMemoryType) (s : Pmm) :
    Marks (if mask &&& reserved.flags ≠ 0 then reservedFrames image s.maxFrameIdx reserved else [])
      (if mask &&& reserved.flags ≠ 0 then reservedFrames image s.maxFrameIdx reserved else []) s
      (if mask &&& reserved.flags ≠ 0 then pmmReserveMemoryRegion image reserved s else s) :=
  (marks_pmmReserveMemoryRegion image reserved s).branch _

/-- The branches one after the other. -/
theorem pmmReserveMask_eq (image : KernelImage) (mask : Word) (s : Pmm) :
    pmmReserveMask image mask s =
      [ReservedMemoryType.init, .kernel, .bitmap, .pageTable].foldl (fun s reserved =>
        if mask &&& reserved.flags ≠ 0 then pmmReserveMemoryRegion image reserved s else s) s := by
  simp only [pmmReserveMask, initBits, List.foldl_cons, List.foldl_nil, pmmReserveMemoryRegion_eq]
  rfl

/-- **A mask marks the frames of its types.** -/
theorem marks_pmmReserveMask (image : KernelImage) (mask : Word) (s : Pmm) :
    Marks (maskFrames image s.maxFrameIdx mask) (maskFrames image s.maxFrameIdx mask) s
      (pmmReserveMask image mask s) := by
  rw [pmmReserveMask_eq, maskFrames]
  generalize [ReservedMemoryType.init, .kernel, .bitmap, .pageTable] = types
  induction types generalizing s with
  | nil => exact .refl s
  | cons reserved types ih =>
      have first := marks_branch image mask reserved s
      have rest := ih (if mask &&& reserved.flags ≠ 0 then pmmReserveMemoryRegion image reserved s else s)
      rw [first.maxFrameIdx] at rest
      rw [List.foldl_cons, List.flatMap_cons]
      exact first.trans rest

/-- A union of masks has the frames of each. -/
theorem mem_maskFrames_or (image : KernelImage) (maxFrameIdx mask other : Word) (frame : ℕ) :
    frame ∈ maskFrames image maxFrameIdx (mask ||| other) ↔
      frame ∈ maskFrames image maxFrameIdx mask ∨ frame ∈ maskFrames image maxFrameIdx other := by
  have both (flags : Word) : (mask ||| other) &&& flags ≠ 0 ↔ mask &&& flags ≠ 0 ∨ other &&& flags ≠ 0 := by
    have neither : (mask ||| other) &&& flags = 0 ↔ mask &&& flags = 0 ∧ other &&& flags = 0 := by
      rw [BitVec.and_or_distrib_right]
      exact BitVec.or_eq_zero_iff
    rw [ne_eq, neither, not_and_or]
  simp only [maskFrames, List.mem_flatMap, both]
  constructor
  · rintro ⟨reserved, type, member⟩
    split at member
    case isTrue some' =>
        rcases some' with here | there
        · exact .inl ⟨reserved, type, by rwa [if_pos here]⟩
        · exact .inr ⟨reserved, type, by rwa [if_pos there]⟩
    case isFalse => cases member
  · rintro (⟨reserved, type, member⟩ | ⟨reserved, type, member⟩)
    · split at member
      case isTrue here => exact ⟨reserved, type, by rwa [if_pos (.inl here)]⟩
      case isFalse => cases member
    · split at member
      case isTrue there => exact ⟨reserved, type, by rwa [if_pos (.inr there)]⟩
      case isFalse => cases member

/-- Reservations one after the other. -/
theorem marks_foldl_pmmReserveMask (image : KernelImage) (masks : List Word) (s : Pmm) :
    Marks (masks.flatMap (maskFrames image s.maxFrameIdx)) (masks.flatMap (maskFrames image s.maxFrameIdx))
      s (masks.foldl (fun s mask => pmmReserveMask image mask s) s) := by
  induction masks generalizing s with
  | nil => exact .refl s
  | cons mask masks ih =>
      have first := marks_pmmReserveMask image mask s
      have rest := ih (pmmReserveMask image mask s)
      rw [first.maxFrameIdx] at rest
      rw [List.foldl_cons, List.flatMap_cons]
      exact first.trans rest

/-- **Reserving masks one after the other is reserving their union**, in any order, with
overlaps and with repetitions. -/
theorem reserveMasks_union (image : KernelImage) (masks : List Word) (s : Pmm) :
    (masks.foldl (fun s mask => pmmReserveMask image mask s) s).frameBitmap =
        (pmmReserveMask image (masks.foldr (· ||| ·) 0) s).frameBitmap ∧
      (masks.foldl (fun s mask => pmmReserveMask image mask s) s).usedFrames =
        (pmmReserveMask image (masks.foldr (· ||| ·) 0) s).usedFrames := by
  refine (marks_pmmReserveMask image _ s).agree (marks_foldl_pmmReserveMask image masks s) fun frame => ?_
  induction masks with
  | nil => simp [maskFrames]
  | cons mask masks ih =>
      rw [List.foldr_cons, mem_maskFrames_or, List.flatMap_cons, List.mem_append, ih]

/-! ## Calls and requests -/

/-- The functions that change the allocator after `pmm_init`. -/
inductive PmmCall where
  | alloc
  | free (addr : Word)
  | setFrameBitmap (start limit : Word)
  | reserve (mask : Word)

namespace PmmCall

/-- The value returned, if there is one, and the state behind the call. -/
def perform (image : KernelImage) (s : Pmm) : PmmCall → Option Word × Pmm
  | alloc => (some (pmmAllocFrame s).1, (pmmAllocFrame s).2)
  | free addr => (none, pmmFreeFrame addr s)
  | setFrameBitmap start limit => (none, pmmSetFrameBitmap start limit s)
  | reserve mask => (none, pmmReserveMask image mask s)

/-- All values returned by some calls, one after the other. -/
def performAll (image : KernelImage) (s : Pmm) : List PmmCall → List (Option Word) × Pmm
  | [] => ([], s)
  | call :: calls =>
      let first := call.perform image s
      let rest := performAll image first.2 calls
      (first.1 :: rest.1, rest.2)

/-- What a call asks of the pool. -/
def request (image : KernelImage) (maxFrameIdx : Word) : PmmCall → SlotRequest ℕ
  | alloc => .take
  | free addr => .give (addr.toNat / 4096)
  | setFrameBitmap start limit => .keep {frame | frame ∈ framesBetween start limit}
  | reserve mask => .keep {frame | frame ∈ maskFrames image maxFrameIdx mask}

/-- The value for an answer of the pool: the address of the frame, or 0. -/
def reply : PmmCall → Option ℕ → Option Word
  | alloc, some frame => some (BitVec.ofNat 32 frame * pageSize)
  | alloc, none => some 0
  | _, _ => none

end PmmCall

/-- The pool of an allocator that started to count at `base`. -/
structure Represents (base : Word) (pool : SlotPool ℕ) (s : Pmm) : Prop where
  free : ∀ frame, frame ∈ pool.free ↔ s.isUsed frame = false
  count : s.usedFrames = base + BitVec.ofInt 32 pool.inUse

/-- The frames that an allocation looks at. -/
def Pmm.window (s : Pmm) : Set ℕ := Set.Ico 1 s.totalFrames.toNat

/-- The frames that can be given back. -/
def Pmm.returnable (s : Pmm) : Set ℕ := Set.Iio s.totalFrames.toNat

/-- The clear bits as a pool. -/
def Pmm.pool (s : Pmm) : SlotPool ℕ := ⟨{frame | s.isUsed frame = false}, 0⟩

theorem represents_pool (s : Pmm) : Represents s.usedFrames s.pool s where
  free := fun _ => Iff.rfl
  count := (BitVec.add_zero _).symm

namespace Represents

variable {base : Word} {pool : SlotPool ℕ} {s t : Pmm}

/-- The next frame is the least free one of the window. -/
theorem next_eq (represents : Represents base pool s) : pool.next s.window = s.nextFrame := by
  cases found : s.nextFrame with
  | none =>
      rw [SlotPool.next_eq_none_iff]
      ext frame
      have used := Pmm.nextFrame_eq_none_iff.mp found frame
      have free := represents.free frame
      simp only [Set.mem_inter_iff, Pmm.window, Set.mem_Ico, Set.mem_empty_iff_false, iff_false, free]
      rintro ⟨clear, above, below⟩
      rw [used above below] at clear
      cases clear
  | some frame =>
      obtain ⟨above, below, free, least⟩ := Pmm.nextFrame_eq_some_iff.mp found
      rw [SlotPool.next_eq_some_iff]
      refine ⟨⟨(represents.free frame).mpr free, above, below⟩, ?_⟩
      rintro other ⟨clear, within⟩
      by_contra before
      have used := least other within.1 (not_le.mp before)
      rw [(represents.free other).mp clear] at used
      cases used

/-- Setting bits keeps slots. -/
theorem kept (represents : Represents base pool s) {frames accessed : List ℕ}
    (marks : Marks frames accessed s t) :
    Represents base (pool.kept {frame | frame ∈ frames}) t where
  free := by
    intro frame
    have free := represents.free frame
    simp only [SlotPool.kept, Set.mem_sdiff, Set.mem_ofPred_eq, free, marks.isUsed,
      Bool.or_eq_false_iff, decide_eq_false_iff_not]
    exact And.comm
  count := by
    have taken : pool.free ∩ {frame | frame ∈ frames} =
        ↑(frames.toFinset.filter fun frame => s.isUsed frame = false) := by
      ext frame
      have free := represents.free frame
      simp only [Set.mem_inter_iff, Set.mem_ofPred_eq, Finset.coe_filter, List.mem_toFinset, free]
      exact And.comm
    rw [marks.usedFrames, represents.count, SlotPool.kept, taken, Set.ncard_coe_finset,
      BitVec.ofInt_add, BitVec.ofInt_natCast, BitVec.add_assoc]
    rfl

/-- A search that finds nothing keeps nothing. -/
theorem unchanged (represents : Represents base pool s) {accessed : List ℕ}
    (marks : Marks [] accessed s t) : Represents base pool t := by
  have kept := represents.kept marks
  have nothing : pool.kept {frame | frame ∈ ([] : List ℕ)} = pool := by
    ext
    · simp [SlotPool.kept]
    · simp [SlotPool.kept]
  rwa [nothing] at kept

/-- An allocation takes a slot. -/
theorem taken (represents : Represents base pool s) {frame : ℕ} {accessed : List ℕ}
    (free : s.isUsed frame = false) (marks : Marks [frame] accessed s t) :
    Represents base (pool.taken frame) t where
  free := by
    intro other
    have clear := represents.free other
    simp only [SlotPool.taken, Set.mem_sdiff, Set.mem_singleton_iff, clear, marks.isUsed,
      List.mem_singleton, Bool.or_eq_false_iff, decide_eq_false_iff_not]
    exact And.comm
  count := by
    have one : s.newlyUsed [frame] = 1 := by
      simp [Pmm.newlyUsed, Finset.filter_singleton, free]
    rw [marks.usedFrames, one, represents.count, SlotPool.taken, BitVec.ofInt_add, BitVec.add_assoc]
    rfl

/-- A free gives a slot, if its index is below the count. -/
theorem given (represents : Represents base pool s) {addr : Word}
    (below : addr.toNat / 4096 < s.totalFrames.toNat) :
    Represents base (pool.given (addr.toNat / 4096)) (pmmFreeFrame addr s) where
  free := by
    intro frame
    have clear := represents.free frame
    rw [isUsed_pmmFreeFrame]
    simp only [SlotPool.given, Set.mem_insert_iff, clear]
    by_cases same : frame = addr.toNat / 4096
    · simp [same, below]
    · simp [same]
  count := by
    rw [usedFrames_pmmFreeFrame below, represents.count, SlotPool.given]
    have minus : BitVec.ofInt 32 (pool.inUse - 1) = BitVec.ofInt 32 pool.inUse - 1 := by
      rw [Int.sub_eq_add_neg, BitVec.ofInt_add, BitVec.sub_eq_add_neg]
      rfl
    rw [minus, BitVec.sub_eq_add_neg, BitVec.sub_eq_add_neg, BitVec.add_assoc]

end Represents

/-! ## Runs -/

/-- What no call changes. -/
structure SameSizes (s t : Pmm) : Prop where
  totalFrames : t.totalFrames = s.totalFrames
  maxFrameIdx : t.maxFrameIdx = s.maxFrameIdx

theorem SameSizes.of_marks {frames accessed : List ℕ} {s t : Pmm} (marks : Marks frames accessed s t) :
    SameSizes s t := ⟨marks.totalFrames, marks.maxFrameIdx⟩

theorem sameSizes_pmmFreeFrame (addr : Word) (s : Pmm) : SameSizes s (pmmFreeFrame addr s) := by
  unfold pmmFreeFrame
  split
  case isTrue => exact ⟨rfl, rfl⟩
  case isFalse => exact ⟨rfl, rfl⟩

section Answers

variable {base : Word} {pool : SlotPool ℕ} {s : Pmm}

/-- **A call is answered by the pool**: what is returned, and the free frames behind it. -/
theorem Represents.perform (represents : Represents base pool s) (image : KernelImage) (call : PmmCall) :
    (call.perform image s).1 =
        call.reply (pool.answer s.window s.returnable (call.request image s.maxFrameIdx)).1 ∧
      Represents base (pool.answer s.window s.returnable (call.request image s.maxFrameIdx)).2
        (call.perform image s).2 ∧
      SameSizes s (call.perform image s).2 := by
  cases call with
  | alloc =>
      simp only [PmmCall.perform, PmmCall.request, SlotPool.answer, represents.next_eq]
      rcases pmmAllocFrame_cases s with ⟨none, addr, marks⟩ | ⟨frame, found, addr, marks⟩
      · rw [none, addr]
        exact ⟨rfl, represents.unchanged marks, .of_marks marks⟩
      · rw [found, addr]
        have free := (Pmm.nextFrame_eq_some_iff.mp found).2.2.1
        exact ⟨rfl, represents.taken free marks, .of_marks marks⟩
  | free addr =>
      refine ⟨rfl, ?_, sameSizes_pmmFreeFrame addr s⟩
      simp only [PmmCall.perform, PmmCall.request, SlotPool.answer, Pmm.returnable, Set.mem_Iio]
      split
      case isTrue below => exact represents.given below
      case isFalse above =>
          have rejected : ¬ frameIndex addr < s.totalFrames := by
            rw [BitVec.lt_def, toNat_frameIndex]
            exact above
          rw [pmmFreeFrame, if_neg rejected]
          exact represents
  | setFrameBitmap start limit =>
      have marks := marks_pmmSetFrameBitmap start limit s
      exact ⟨rfl, represents.kept marks, .of_marks marks⟩
  | reserve mask =>
      have marks := marks_pmmReserveMask image mask s
      exact ⟨rfl, represents.kept marks, .of_marks marks⟩

/-- Any calls are. -/
theorem Represents.performAll (represents : Represents base pool s) (image : KernelImage)
    (calls : List PmmCall) :
    let answers := pool.answers s.window s.returnable (calls.map (PmmCall.request image s.maxFrameIdx))
    (PmmCall.performAll image s calls).1 = calls.zipWith PmmCall.reply answers.1 ∧
      Represents base answers.2 (PmmCall.performAll image s calls).2 ∧
      SameSizes s (PmmCall.performAll image s calls).2 := by
  induction calls generalizing pool s with
  | nil => exact ⟨rfl, represents, rfl, rfl⟩
  | cons call calls ih =>
      obtain ⟨value, next, sizes⟩ := represents.perform image call
      obtain ⟨values, last, sizes'⟩ := ih next
      simp only [Pmm.window, Pmm.returnable, sizes.totalFrames, sizes.maxFrameIdx] at values last
      dsimp only [PmmCall.performAll, List.map_cons, SlotPool.answers]
      refine ⟨?_, last, ?_⟩
      · rw [value, values]
        rfl
      · exact ⟨sizes'.totalFrames.trans sizes.totalFrames, sizes'.maxFrameIdx.trans sizes.maxFrameIdx⟩

end Answers

/-- **The allocator is a pool of frames.** In every sequence of allocations, frees of any
addresses and reservations, from any state, the values returned are the answers of the pool, and
behind the calls the clear bits are its free slots and `used_frames` is its count. -/
theorem pmm_answers (image : KernelImage) (s : Pmm) (calls : List PmmCall) :
    let answers :=
      s.pool.answers s.window s.returnable (calls.map (PmmCall.request image s.maxFrameIdx))
    (PmmCall.performAll image s calls).1 = calls.zipWith PmmCall.reply answers.1 ∧
      Represents s.usedFrames answers.2 (PmmCall.performAll image s calls).2 := by
  obtain ⟨values, last, -⟩ := (represents_pool s).performAll image calls
  exact ⟨values, last⟩

/-! ## Clients that free what they allocated -/

namespace Session

/-- An allocation, or a free of an address that the client holds. -/
inductive BorrowStep : Session → Session → Prop
  | alloc (s : Session) :
      BorrowStep s ⟨(pmmAllocFrame s.pmm).2, record (pmmAllocFrame s.pmm).1 s.live⟩
  | free (s : Session) (addr : Word) (owned : addr ∈ s.live) :
      BorrowStep s ⟨pmmFreeFrame addr s.pmm, s.live.erase addr⟩

abbrev BorrowRun : Session → Session → Prop := Relation.ReflTransGen BorrowStep

end Session

/-- Erasing an image erases the element, where no other held element has the same image. -/
theorem map_erase_of_mem {held : List ℕ} {frame : ℕ} {f : ℕ → Word} (member : frame ∈ held)
    (injective : ∀ a ∈ held, ∀ b ∈ held, f a = f b → a = b) :
    (held.map f).erase (f frame) = (held.erase frame).map f := by
  induction held with
  | nil => cases member
  | cons other held ih =>
      by_cases same : other = frame
      · subst same
        rw [List.map_cons, List.erase_cons_head, List.erase_cons_head]
      · have different : f other ≠ f frame := fun equal =>
          same (injective other List.mem_cons_self frame member equal)
        have rest : frame ∈ held := by
          rcases List.mem_cons.mp member with equal | rest
          · exact absurd equal.symm same
          · exact rest
        have injectiveRest := fun a memberA b memberB =>
          injective a (List.mem_cons_of_mem other memberA) b (List.mem_cons_of_mem other memberB)
        rw [List.map_cons, List.erase_cons_tail (by simpa using different), ih rest injectiveRest,
          List.erase_cons_tail (by simpa using same), List.map_cons]

/-- The session has come as far as the client of the pool. -/
structure Mirrors (start : Pmm) (c : SlotClient ℕ) (s : Session) : Prop where
  represents : Represents start.usedFrames c.pool s.pmm
  live : s.live = c.held.map fun frame => BitVec.ofNat 32 frame * pageSize
  sizes : SameSizes start s.pmm
  balanced : SlotClient.Balanced start.window start.pool c

section Borrow

variable {start : Pmm} {c : SlotClient ℕ} {s t : Session}

/-- The frames that a client holds are below `2 ^ 20`. -/
theorem Mirrors.held_bounds (mirrors : Mirrors start c s) (few : start.totalFrames.toNat ≤ 2 ^ 20) :
    ∀ frame ∈ c.held, 1 ≤ frame ∧ frame < start.totalFrames.toNat ∧ frame < 2 ^ 20 := by
  intro frame member
  have bounds := (mirrors.balanced.held frame member).2
  exact ⟨bounds.1, bounds.2, bounds.2.trans_le few⟩

/-- Different held frames have different addresses. -/
theorem Mirrors.injective (mirrors : Mirrors start c s) (few : start.totalFrames.toNat ≤ 2 ^ 20) :
    ∀ a ∈ c.held, ∀ b ∈ c.held,
      BitVec.ofNat 32 a * pageSize = BitVec.ofNat 32 b * pageSize → a = b := by
  intro a memberA b memberB same
  have addrA := toNat_frameAddr (mirrors.held_bounds few a memberA).2.2
  have addrB := toNat_frameAddr (mirrors.held_bounds few b memberB).2.2
  rw [same] at addrA
  omega

/-- **Each step of the client is one of a client of the pool.** -/
theorem Mirrors.step (mirrors : Mirrors start c s) (few : start.totalFrames.toNat ≤ 2 ^ 20)
    (step : s.BorrowStep t) : ∃ d, Mirrors start d t := by
  have total := mirrors.sizes.totalFrames
  cases step with
  | alloc =>
      rcases pmmAllocFrame_cases s.pmm with ⟨-, addr, marks⟩ | ⟨frame, found, addr, marks⟩
      · rw [addr]
        exact ⟨c, mirrors.represents.unchanged marks, mirrors.live,
          ⟨marks.totalFrames.trans total, marks.maxFrameIdx.trans mirrors.sizes.maxFrameIdx⟩,
          mirrors.balanced⟩
      · obtain ⟨above, below, free, -⟩ := Pmm.nextFrame_eq_some_iff.mp found
        have next : c.pool.next start.window = some frame := by
          rw [← found, ← mirrors.represents.next_eq, Pmm.window, Pmm.window, total]
        have nonzero : BitVec.ofNat 32 frame * pageSize ≠ 0 := by
          rw [total] at below
          have value := toNat_frameAddr (below.trans_le few)
          intro zero
          rw [zero] at value
          change 0 = _ at value
          omega
        rw [addr, Session.record, if_neg nonzero]
        refine ⟨⟨c.pool.taken frame, frame :: c.held⟩, mirrors.represents.taken free marks, ?_,
          ⟨marks.totalFrames.trans total, marks.maxFrameIdx.trans mirrors.sizes.maxFrameIdx⟩,
          mirrors.balanced.take next⟩
        rw [mirrors.live]
        rfl
  | free addr owned =>
      rw [mirrors.live] at owned
      obtain ⟨frame, held, rfl⟩ := List.mem_map.mp owned
      obtain ⟨-, below, small⟩ := mirrors.held_bounds few frame held
      have index : (BitVec.ofNat 32 frame * pageSize).toNat / 4096 = frame := by
        rw [toNat_frameAddr small]
        omega
      have inside : (BitVec.ofNat 32 frame * pageSize).toNat / 4096 < s.pmm.totalFrames.toNat := by
        rw [index, total]
        exact below
      have given := mirrors.represents.given inside
      rw [index] at given
      have sizes := sameSizes_pmmFreeFrame (BitVec.ofNat 32 frame * pageSize) s.pmm
      refine ⟨⟨c.pool.given frame, c.held.erase frame⟩, given, ?_,
        ⟨sizes.totalFrames.trans total, sizes.maxFrameIdx.trans mirrors.sizes.maxFrameIdx⟩,
        mirrors.balanced.give held⟩
      rw [mirrors.live]
      exact map_erase_of_mem held (mirrors.injective few)

/-- Any run is one of a client of the pool. -/
theorem exists_mirrors (few : start.totalFrames.toNat ≤ 2 ^ 20)
    (run : Session.BorrowRun ⟨start, []⟩ s) : ∃ c, Mirrors start c s := by
  induction run with
  | refl => exact ⟨⟨start.pool, []⟩, represents_pool start, rfl, ⟨rfl, rfl⟩, .start _ _⟩
  | tail _ step ih =>
      obtain ⟨c, mirrors⟩ := ih
      exact mirrors.step few step

end Borrow

/-- Two allocators with the same pool and the same sizes answer alike. -/
theorem performAll_congr (image : KernelImage) {s t : Pmm} {base : Word} {pool : SlotPool ℕ}
    (first : Represents base pool s) (second : Represents base pool t) (sizes : SameSizes s t)
    (calls : List PmmCall) :
    (PmmCall.performAll image t calls).1 = (PmmCall.performAll image s calls).1 := by
  have here := (first.performAll image calls).1
  have there := (second.performAll image calls).1
  rw [here, there, Pmm.window, Pmm.window, Pmm.returnable, Pmm.returnable, sizes.totalFrames,
    sizes.maxFrameIdx]

/-- **A client leaves behind exactly what it holds.** Whatever it allocated and freed, in whatever
order, the used frames are those used before and those it holds, each of them held once and
counted once. When it holds none, the bitmap and the count are as before, and any later calls
return what they would have returned in its place. -/
theorem borrowed_frames (image : KernelImage) {s : Pmm} (few : s.totalFrames.toNat ≤ 2 ^ 20) {t : Session}
    (run : Session.BorrowRun ⟨s, []⟩ t) :
    (∀ frame, t.pmm.isUsed frame = true ↔
        s.isUsed frame = true ∨ ∃ addr ∈ t.live, addr.toNat / 4096 = frame) ∧
      t.live.Nodup ∧ t.pmm.usedFrames = s.usedFrames + BitVec.ofNat 32 t.live.length ∧
      (t.live = [] → t.pmm.frameBitmap = s.frameBitmap ∧
        ∀ calls, (PmmCall.performAll image t.pmm calls).1 = (PmmCall.performAll image s calls).1) := by
  obtain ⟨c, mirrors⟩ := exists_mirrors few run
  have index (frame : ℕ) (held : frame ∈ c.held) :
      (BitVec.ofNat 32 frame * pageSize).toNat / 4096 = frame := by
    rw [toNat_frameAddr (mirrors.held_bounds few frame held).2.2]
    omega
  refine ⟨fun frame => ?_, ?_, ?_, fun nothing => ?_⟩
  · have free := mirrors.represents.free frame
    rw [mirrors.balanced.free] at free
    have holds : (∃ addr ∈ t.live, addr.toNat / 4096 = frame) ↔ frame ∈ c.held := by
      rw [mirrors.live]
      constructor
      · rintro ⟨addr, member, rfl⟩
        obtain ⟨other, held, rfl⟩ := List.mem_map.mp member
        rwa [index other held]
      · intro held
        exact ⟨_, List.mem_map_of_mem held, index frame held⟩
    rw [holds]
    simp only [Pmm.pool, Set.mem_sdiff, Set.mem_ofPred_eq] at free
    cases used : t.pmm.isUsed frame with
    | false => simp [free.mpr used]
    | true =>
        rw [used] at free
        by_cases held : frame ∈ c.held
        · simp [held]
        · simpa [held] using free
  · rw [mirrors.live]
    exact mirrors.balanced.distinct.map_on (mirrors.injective few)
  · rw [mirrors.represents.count, mirrors.balanced.inUse, mirrors.live, List.length_map]
    simp [Pmm.pool]
  · rw [mirrors.live, List.map_eq_nil_iff] at nothing
    have pool := mirrors.balanced.pool_eq nothing
    have represents := mirrors.represents
    rw [pool] at represents
    refine ⟨?_, performAll_congr image (represents_pool s) represents mirrors.sizes⟩
    refine cells_ext (by decide) fun frame => ?_
    have bit : t.pmm.isUsed frame = s.isUsed frame := by
      have free := (represents.free frame).symm.trans ((represents_pool s).free frame)
      cases used : s.isUsed frame with
      | false => exact free.mpr used
      | true => simpa [used] using free
    exact bit

/-- Two frames, given back in the order in which they were allocated. -/
theorem borrowed_frames_two :
    ∃ s t, s.totalFrames.toNat ≤ 2 ^ 20 ∧ Session.BorrowRun ⟨s, []⟩ t ∧ t.live = [] ∧
      t.pmm.frameBitmap = s.frameBitmap ∧
      ∀ calls, (PmmCall.performAll sampleImage t.pmm calls).1 =
        (PmmCall.performAll sampleImage s calls).1 := by
  let s : Pmm :=
    { frameBitmap := fun _ => 0, totalFrames := 8, usedFrames := 0, maxFrameIdx := 8, touched := [] }
  have few : s.totalFrames.toNat ≤ 2 ^ 20 := by decide
  have one : Session.BorrowRun ⟨s, []⟩ ⟨_, _⟩ := .single (.alloc _)
  have two := one.tail (.alloc _)
  have three := two.tail (.free _ 0x1000 (by decide))
  have four := three.tail (.free _ 0x2000 (by decide))
  have left := (borrowed_frames sampleImage few four).2.2.2 (by decide)
  exact ⟨s, _, few, four, by decide, left⟩

end KernelV.Memory
