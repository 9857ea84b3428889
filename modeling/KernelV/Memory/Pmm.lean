import KernelV.Library.Alignment
import KernelV.Library.FirstFit
import KernelV.Library.PackedBits
import KernelV.Library.WordLoop
import KernelV.Memory.MemoryMap

/-!
# The physical memory manager

The frame allocator keeps one bit for every 4096-byte frame in a byte array at
`0x90000`, together with three counters. A set bit is a used frame.

* `pmmInit` sizes the bitmap by the highest region end, marks everything used,
  and clears one bit for every page step inside a region. Its inner loop adds
  to a 32-bit word and may wrap around for ever, so it runs with a budget.
* `pmmSetFrameBitmap` marks the frames of a range. Its two ends are rounded to
  page boundaries first, which is why its loop always ends
  (`isSome_setFrameLoop`).
* `pmmAllocFrame` hands out the first frame whose bit is clear, searching from
  frame 1 up to the number of usable frames. `pmmFreeFrame` clears a bit.

The byte array is its own component of the state. Bytes outside the part that
`pmmInit` fills are whatever the memory held before. The field `touched` is not
part of the program: it records, for every bitmap access, the index of the byte.
-/

set_option autoImplicit false

namespace KernelV.Memory

open Library

def pageSize : Word := 4096

/-- Where the bitmap is put. -/
def frameBitmapAddr : Word := 0x90000

/-- Frame index of an address. -/
def frameIndex (addr : Word) : Word := addr / pageSize

/-- The allocator's variables. -/
structure Pmm where
  /-- The bytes from `frameBitmapAddr` on. -/
  frameBitmap : ℕ → BitVec 8
  totalFrames : Word
  usedFrames : Word
  maxFrameIdx : Word
  /-- The byte index of every bitmap access, latest first. -/
  touched : List ℕ

namespace Pmm

/-- The allocator at load time, over the given memory. -/
def fresh (frameBitmap : ℕ → BitVec 8) : Pmm :=
  { frameBitmap, totalFrames := 0, usedFrames := 0, maxFrameIdx := 0, touched := [] }

def touch (s : Pmm) (idx : ℕ) : Pmm := { s with touched := idx / 8 :: s.touched }

/-- `BITMAP_GET`. -/
def bitmapGet (s : Pmm) (idx : ℕ) : Bool × Pmm := (getBit s.frameBitmap idx, s.touch idx)

/-- `BITMAP_SET`. -/
def bitmapSet (s : Pmm) (idx : ℕ) : Pmm :=
  { s.touch idx with frameBitmap := setBit s.frameBitmap idx }

/-- `BITMAP_CLEAR`. -/
def bitmapClear (s : Pmm) (idx : ℕ) : Pmm :=
  { s.touch idx with frameBitmap := clearBit s.frameBitmap idx }

/-- Whether the bit of a frame is set. -/
def isUsed (s : Pmm) (frame : ℕ) : Bool := getBit s.frameBitmap frame

end Pmm

/-! ## Initialization -/

namespace MemoryRegion

/-- The base as `pmm_init` reads it, narrowed to 32 bits. -/
def regionBase (region : MemoryRegion) : Word := region.base.setWidth 32

/-- The length as `pmm_init` reads it, narrowed to 32 bits. -/
def regionLength (region : MemoryRegion) : Word := region.length.setWidth 32

/-- Base plus length, modulo `2 ^ 32`. -/
def regionEnd (region : MemoryRegion) : Word := region.regionBase + region.regionLength

end MemoryRegion

/-- Step 1 of `pmm_init`: one pass of the loop for the maximum frame index. -/
def raiseMaxFrameIdx (s : Pmm) (region : MemoryRegion) : Pmm :=
  let currentFrameIdx := frameIndex region.regionEnd
  if currentFrameIdx > s.maxFrameIdx then { s with maxFrameIdx := currentFrameIdx } else s

/-- Steps 2 and 3 of `pmm_init`: every bit of the bitmap set. -/
def fillFrameBitmap (s : Pmm) : Pmm :=
  { s with frameBitmap := fillCells s.frameBitmap 0xFF (s.maxFrameIdx / 8 + 1).toNat }

/-- The body of the inner loop of step 4. -/
def freeFrameAt (addr : Word) (s : Pmm) : Pmm :=
  if frameIndex addr < s.maxFrameIdx then
    { s.bitmapClear (frameIndex addr).toNat with totalFrames := s.totalFrames + 1 }
  else s

/-- Step 4 of `pmm_init` for one region, with a budget for its loop. -/
def freeRegion (fuel : ℕ) (s : Pmm) (region : MemoryRegion) : Option Pmm :=
  wordLoop pageSize region.regionEnd freeFrameAt fuel region.regionBase s

/-- `pmm_init`, with a budget of tests for each run of the inner loop. -/
def pmmInit (fuel : ℕ) (table : RegionTable) (s : Pmm) : Option Pmm := do
  let s := { s with totalFrames := 0, usedFrames := 0 }
  let s := fillFrameBitmap (table.regions.foldl raiseMaxFrameIdx s)
  let s ← table.regions.foldlM (freeRegion fuel) s
  return { s with usedFrames := 0 }

/-! ## Reservation -/

/-- The start of a range, rounded down to a page boundary. -/
def roundStart (addr : Word) : Word := addr &&& ~~~(pageSize - 1)

/-- The end of a range, rounded up to a page boundary modulo `2 ^ 32`. -/
def roundEnd (addr : Word) : Word := (addr + pageSize - 1) &&& ~~~(pageSize - 1)

/-- The loop body of `pmm_set_frame_bitmap`. -/
def setFrameAt (addr : Word) (s : Pmm) : Pmm :=
  match s.bitmapGet (frameIndex addr).toNat with
  | (false, s) =>
      { s.bitmapSet (frameIndex addr).toNat with usedFrames := s.usedFrames + 1 }
  | (true, s) => s

/-- The loop of `pmm_set_frame_bitmap`. There are `2 ^ 20` pages, so the budget
is never used up. -/
def setFrameLoop (start limit : Word) (s : Pmm) : Option Pmm :=
  wordLoop pageSize (roundEnd limit) setFrameAt (2 ^ 20 + 1) (roundStart start) s

theorem pageMask_eq : ~~~(pageSize - 1) = highMask 32 12 := by decide

theorem toNat_roundStart (addr : Word) : (roundStart addr).toNat = addr.toNat / 4096 * 4096 := by
  rw [roundStart, pageMask_eq]
  exact toNat_and_highMask addr 12

theorem toNat_roundEnd (addr : Word) :
    (roundEnd addr).toNat = (addr.toNat + 4095) % 2 ^ 32 / 4096 * 4096 := by
  have sum : (addr + pageSize - 1).toNat = (addr.toNat + 4095) % 2 ^ 32 := by
    simp only [pageSize]
    bv_omega
  rw [roundEnd, pageMask_eq, ← sum]
  exact toNat_and_highMask (addr + pageSize - 1) 12

theorem toNat_pageSize : pageSize.toNat = 4096 := rfl

theorem pageSize_dvd : pageSize.toNat ∣ 2 ^ 32 := by decide

theorem pageSize_pos : 0 < pageSize.toNat := by decide

/-- Page boundaries lie at or below the last page, so the loop between two of
them does not step over its bound. -/
theorem loopEnds_round (start limit : Word) :
    LoopEnds 32 pageSize.toNat (roundStart start).toNat (roundEnd limit).toNat := by
  rw [LoopEnds, toNat_pageSize, toNat_roundStart, toNat_roundEnd]
  omega

theorem loopCount_round_lt (start limit : Word) :
    loopCount pageSize.toNat (roundStart start).toNat (roundEnd limit).toNat < 2 ^ 20 + 1 := by
  rw [loopCount, toNat_pageSize, toNat_roundStart, toNat_roundEnd]
  omega

/-- The pages that `pmm_set_frame_bitmap` goes through. -/
def pagesBetween (start limit : Word) : List Word :=
  visited pageSize (loopCount pageSize.toNat (roundStart start).toNat (roundEnd limit).toNat)
    (roundStart start)

theorem setFrameLoop_eq (start limit : Word) (s : Pmm) :
    setFrameLoop start limit s =
      some ((pagesBetween start limit).foldl (fun s addr => setFrameAt addr s) s) :=
  wordLoop_eq_foldl pageSize_dvd pageSize_pos (loopEnds_round start limit)
    (loopCount_round_lt start limit) s

/-- The loop of `pmm_set_frame_bitmap` ends for every pair of addresses. -/
theorem isSome_setFrameLoop (start limit : Word) (s : Pmm) :
    (setFrameLoop start limit s).isSome := by
  rw [setFrameLoop_eq]
  rfl

/-- `pmm_set_frame_bitmap`: mark the frames of a range as used. -/
def pmmSetFrameBitmap (start limit : Word) (s : Pmm) : Pmm :=
  (setFrameLoop start limit s).get (isSome_setFrameLoop start limit s)

/-- The kinds of memory the kernel reserves. -/
inductive ReservedMemoryType where
  | init
  | bios
  | ivt
  | vga
  | kernel
  | bitmap
  | pageTable
  deriving DecidableEq, Repr

/-- The flag bits of a reserved type. -/
def ReservedMemoryType.flags : ReservedMemoryType → Word
  | .init => 1 <<< 0 ||| 1 <<< 1 ||| 1 <<< 2
  | .bios => 1 <<< 0
  | .ivt => 1 <<< 1
  | .vga => 1 <<< 2
  | .kernel => 1 <<< 3
  | .bitmap => 1 <<< 4
  | .pageTable => 1 <<< 5

def pageEntries : ℕ := 1024
def pageDirStartAddr : Word := 0x80000
def pageTableStartAddr : Word := 0x81000

/-- Where the linker script puts the start of the kernel image. -/
def kernelStart : Word := 0x10000

/-- The end of the linked kernel image, which lies below the page directory. -/
structure KernelImage where
  kernelEnd : Word
  start_le : kernelStart ≤ kernelEnd
  end_le : kernelEnd ≤ pageDirStartAddr

/-- `pmm_reserve_memory_region`. -/
def pmmReserveMemoryRegion (image : KernelImage) (reserved : ReservedMemoryType) (s : Pmm) : Pmm :=
  let has := fun flag : ReservedMemoryType => reserved.flags &&& flag.flags
  let s := if has .init ||| has .bios ||| has .ivt ||| has .vga ≠ 0 then
    pmmSetFrameBitmap 0 0x100000 s else s
  let s := if has .kernel ≠ 0 then pmmSetFrameBitmap kernelStart image.kernelEnd s else s
  let s := if has .bitmap ≠ 0 then
    let bitmapBytes := s.maxFrameIdx / 8 + 1
    pmmSetFrameBitmap frameBitmapAddr (frameBitmapAddr + bitmapBytes) s else s
  if has .pageTable ≠ 0 then
    let tableBytes := BitVec.ofNat 32 (pageEntries * 4)
    let s := pmmSetFrameBitmap pageDirStartAddr (pageDirStartAddr + tableBytes) s
    pmmSetFrameBitmap pageTableStartAddr (pageTableStartAddr + tableBytes) s
  else s

/-- The reservations `kernel_main` makes before the first allocation. -/
def bootReservations (image : KernelImage) (s : Pmm) : Pmm :=
  let s := pmmReserveMemoryRegion image .init s
  let s := pmmReserveMemoryRegion image .kernel s
  pmmReserveMemoryRegion image .bitmap s

/-! ## Allocation -/

/-- The search of `pmm_alloc_frame`, with the number of indices left to try. -/
def allocFrameLoop : ℕ → ℕ → Pmm → Word × Pmm
  | 0, _, s => (0, s)
  | left + 1, frameIdx, s =>
      match s.bitmapGet frameIdx with
      | (false, s) =>
          (BitVec.ofNat 32 frameIdx * pageSize,
            { s.bitmapSet frameIdx with usedFrames := s.usedFrames + 1 })
      | (true, s) => allocFrameLoop left (frameIdx + 1) s

/-- `pmm_alloc_frame`: the address of a frame, or 0 when the search fails. -/
def pmmAllocFrame (s : Pmm) : Word × Pmm := allocFrameLoop (s.totalFrames.toNat - 1) 1 s

/-- `pmm_free_frame`. -/
def pmmFreeFrame (addr : Word) (s : Pmm) : Pmm :=
  if frameIndex addr < s.totalFrames then
    { s.bitmapClear (frameIndex addr).toNat with usedFrames := s.usedFrames - 1 }
  else s

end KernelV.Memory
