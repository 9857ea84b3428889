import KernelV.Bootloader.MapBuffer
import KernelV.Memory.Pmm

/-!
# From the disk image to the entry of the kernel

The Makefile writes the two stages of the bootloader and the kernel into a blank disk image,
each at its own sector. The stages read a fixed number of sectors back, through a packet that
they build in memory for the BIOS.

What a stage finds in memory is therefore the image, as far as the sectors go: the second stage
is whole exactly if it has at most five of them (`secondStage_whole_iff`), and the kernel, with
the zeros of its `.bss` behind it, exactly if it ends at or below `0x16000`
(`kernelImage_whole_iff`). What the memory held before is lost up to there, and with it the
magic values that the handler of double faults leaves for the next boot
(`breadcrumbs_lost`).
-/

set_option autoImplicit false

namespace KernelV.Bootloader

open Library Memory

/-! ## The disk image -/

abbrev sectorSize : ℕ := 512

/-- An image file, with zeros behind its end. -/
structure DiskImage where
  bytes : ℕ → Byte
  size : ℕ

namespace DiskImage

/-- `dd if=/dev/zero bs=1K count=1440`. -/
def blank : DiskImage := ⟨fun _ => 0, 1440 * 1024⟩

/-- `dd bs=512 seek=… conv=notrunc`. -/
def dd (seek : ℕ) (file : List Byte) (img : DiskImage) : DiskImage where
  bytes := storeBytes (sectorSize * seek) file img.bytes
  size := max img.size (sectorSize * seek + file.length)

/-- Some sectors of the image. -/
def sectors (img : DiskImage) (lba count : ℕ) : List Byte :=
  loadBytes img.bytes (sectorSize * lba) (sectorSize * count)

end DiskImage

/-- `stage1.bin`, `stage2.bin` and `kernel.bin`. -/
structure Binaries where
  stage1 : List Byte
  stage2 : List Byte
  kernel : List Byte
  /-- The first stage is padded up to its signature. -/
  length_stage1 : stage1.length = sectorSize

/-- `disk.img`. -/
def Binaries.disk (binaries : Binaries) : DiskImage :=
  ((DiskImage.blank.dd 0 binaries.stage1).dd 1 binaries.stage2).dd 9 binaries.kernel

/-! ## Reading sectors -/

def read32 (mem : ℕ → Byte) (addr : ℕ) : Word := BitVec.ofNat 32 (leValue (loadBytes mem addr 4))

/-- What `int 0x13` finds at `DS:SI`. -/
@[ext] structure ReadPacket where
  size : BitVec 16
  sectors : BitVec 16
  offset : BitVec 16
  segment : BitVec 16
  lbaLow : Word
  lbaHigh : Word

namespace ReadPacket

def load (mem : ℕ → Byte) (addr : ℕ) : ReadPacket where
  size := read16 mem addr
  sectors := read16 mem (addr + 2)
  offset := read16 mem (addr + 4)
  segment := read16 mem (addr + 6)
  lbaLow := read32 mem (addr + 8)
  lbaHigh := read32 mem (addr + 12)

/-- Where the sectors go. -/
def target (packet : ReadPacket) : ℕ := 16 * packet.segment.toNat + packet.offset.toNat

def lba (packet : ReadPacket) : ℕ := packet.lbaLow.toNat + 2 ^ 32 * packet.lbaHigh.toNat

/-- The stores of a stage to its `ReadPacket`. -/
def store (addr : ℕ) (packet : ReadPacket) (mem : ℕ → Byte) : ℕ → Byte :=
  let mem := write16 addr packet.size mem
  let mem := write16 (addr + 2) packet.sectors mem
  let mem := write16 (addr + 4) packet.offset mem
  let mem := write16 (addr + 6) packet.segment mem
  let mem := write32 (addr + 8) packet.lbaLow mem
  write32 (addr + 12) packet.lbaHigh mem

end ReadPacket

/-- The BIOS has the vectors, its variables and the stack below `0x7c00` for itself, and what lies
between `0x80000` and 1 MiB. -/
def OutsideBios (addr : ℕ) : Prop := 0x7c00 ≤ addr ∧ addr < 0x80000 ∨ 0x100000 ≤ addr

/-- The BIOS with a disk. -/
structure DiskBios (disk : DiskImage) where
  /-- The carry flag and the memory after `int 0x13` with `ah = 0x42`. -/
  read : ReadPacket → (ℕ → Byte) → Bool × (ℕ → Byte)
  /-- Without carry the sectors are in memory, and outside of the BIOS's own nothing else has
  changed. -/
  delivers : ∀ packet mem, (read packet mem).1 = false → ∀ addr, OutsideBios addr →
    (read packet mem).2 addr =
      storeBytes packet.target (disk.sectors packet.lba packet.sectors.toNat) mem addr

/-- A stage builds its packet and calls the BIOS. With carry it prints a message and halts. -/
def readSectors {disk : DiskImage} (bios : DiskBios disk) (addr : ℕ) (packet : ReadPacket)
    (mem : ℕ → Byte) : Option (ℕ → Byte) :=
  let mem := packet.store addr mem
  match bios.read (.load mem addr) mem with
  | (false, mem) => some mem
  | (true, _) => none

/-! ## The stages -/

/-- The place of `ReadPacket` in the first stage, before the partition table. -/
structure Stage1 where
  readPacket : ℕ
  above : 0x7c00 ≤ readPacket
  inside : readPacket + 16 ≤ 0x7c00 + 0x1BE

/-- The places of `ReadPacket` and `memmap_count` in the second stage. -/
structure Stage2Layout extends Stage2 where
  readPacket : ℕ
  packetAbove : 0x7e00 ≤ readPacket
  packetInside : readPacket + 16 ≤ 0x10000

/-- The stores to `ReadPacket` in the first stage. -/
def stage2Packet : ReadPacket :=
  { size := 0x10, sectors := 0x05, offset := 0x7E00, segment := 0x00, lbaLow := 0x01, lbaHigh := 0x00 }

/-- `LoadStage2`. -/
def loadStage2 {disk : DiskImage} (bios : DiskBios disk) (stage1 : Stage1) (mem : ℕ → Byte) :
    Option (ℕ → Byte) :=
  readSectors bios stage1.readPacket stage2Packet mem

/-- `LoadKernel`. -/
def loadKernel {disk : DiskImage} (bios : DiskBios disk) (stage2 : Stage2Layout) (mem : ℕ → Byte) :
    Option (ℕ → Byte) :=
  readSectors bios stage2.readPacket
    { size := 0x10, sectors := 0x30, offset := 0x00, segment := 0x1000, lbaLow := 0x09, lbaHigh := 0x00 }
    mem

/-- The answer to `int 0x13` with `ah = 0x41`. -/
structure ExtensionReply where
  carry : Bool
  bx : BitVec 16

/-- The machine from `0x7c00` up to the jump to `0x10000`, with the memory it has then. The video
mode and the descriptor tables are left out. -/
def boot {disk : DiskImage} (bios : DiskBios disk) (stage1 : Stage1) (stage2 : Stage2Layout)
    (extension : ExtensionReply) (replies : List Reply) (mem : ℕ → Byte) : Option (ℕ → Byte) := do
  let mem ← loadStage2 bios stage1 mem
  if extension.carry ∨ extension.bx ≠ 0xAA55 then none
  else
    let mem ← loadKernel bios stage2 mem
    some (getMemoryMap stage2.toStage2 replies mem)

/-! ## The packet -/

theorem read32_write32 (addr : ℕ) (value : Word) (mem : ℕ → Byte) :
    read32 (write32 addr value mem) addr = value := by
  have loaded := loadBytes_storeBytes addr [] (leBytes 4 value.toNat) [] mem
  simp only [List.nil_append, List.append_nil, List.length_nil, length_leBytes, Nat.add_zero] at loaded
  have word : read32 (write32 addr value mem) addr = BitVec.ofNat 32 (leValue (leBytes 4 value.toNat)) :=
    congrArg (fun bytes => BitVec.ofNat 32 (leValue bytes)) loaded
  rw [word, ofNat_leValue_leBytes value rfl]

theorem read32_storeBytes {addr place : ℕ} {bytes : List Byte}
    (apart : place + 4 ≤ addr ∨ addr + bytes.length ≤ place) (mem : ℕ → Byte) :
    read32 (storeBytes addr bytes mem) place = read32 mem place := by
  rw [read32, read32, loadBytes_storeBytes_of_apart apart]

namespace ReadPacket

/-- **The BIOS finds the packet that the stage built.** -/
theorem load_store (addr : ℕ) (packet : ReadPacket) (mem : ℕ → Byte) :
    load (packet.store addr mem) addr = packet := by
  have later16 {place other : ℕ} (value : BitVec 16) (mem : ℕ → Byte) (apart : place + 2 ≤ other) :
      read16 (write16 other value mem) place = read16 mem place := read16_storeBytes (.inl apart) mem
  have later32 {place other : ℕ} (value : Word) (mem : ℕ → Byte) (apart : place + 2 ≤ other) :
      read16 (write32 other value mem) place = read16 mem place := read16_storeBytes (.inl apart) mem
  have later (value : Word) (mem : ℕ → Byte) :
      read32 (write32 (addr + 12) value mem) (addr + 8) = read32 mem (addr + 8) :=
    read32_storeBytes (.inl (by omega)) mem
  ext1
  · simp (disch := omega) only [load, store, later16, later32, read16_write16]
  · simp (disch := omega) only [load, store, later16, later32, read16_write16]
  · simp (disch := omega) only [load, store, later16, later32, read16_write16]
  · simp (disch := omega) only [load, store, later32, read16_write16]
  · simp only [load, store, later, read32_write32]
  · simp only [load, store, read32_write32]

/-- Building a packet changes its 16 bytes. -/
theorem store_of_outside (addr : ℕ) (packet : ReadPacket) {place : ℕ}
    (outside : place < addr ∨ addr + 16 ≤ place) (mem : ℕ → Byte) :
    packet.store addr mem place = mem place := by
  have apart {start : ℕ} {bytes : List Byte} (mem : ℕ → Byte) (within : addr ≤ start)
      (short : start + bytes.length ≤ addr + 16) : storeBytes start bytes mem place = mem place := by
    rcases outside with below | above
    · exact storeBytes_of_lt (by omega) bytes mem
    · exact storeBytes_of_le (by omega) mem
  simp (disch := simp) only [store, write16, write32, apart]

end ReadPacket

/-! ## What is read -/

section Read

variable {disk : DiskImage} {bios : DiskBios disk} {addr : ℕ} {packet : ReadPacket} {mem mem' : ℕ → Byte}

/-- A read that goes on has delivered. -/
theorem eq_of_readSectors (done : readSectors bios addr packet mem = some mem') {place : ℕ}
    (ours : OutsideBios place) :
    mem' place = storeBytes packet.target (disk.sectors packet.lba packet.sectors.toNat)
      (packet.store addr mem) place := by
  rw [readSectors, ReadPacket.load_store] at done
  have delivered := bios.delivers packet (packet.store addr mem)
  revert done delivered
  generalize bios.read packet (packet.store addr mem) = result
  obtain ⟨carry, memory⟩ := result
  intro done delivered
  cases carry with
  | false => exact (congrFun (Option.some.inj done) place).symm.trans (delivered rfl place ours)
  | true => cases done

theorem DiskImage.length_sectors (disk : DiskImage) (lba count : ℕ) :
    (disk.sectors lba count).length = sectorSize * count := by
  rw [sectors, loadBytes, List.length_map, List.length_range]

/-- **The sectors are in memory.** -/
theorem readSectors_inside (done : readSectors bios addr packet mem = some mem') {i : ℕ}
    (inside : i < sectorSize * packet.sectors.toNat) (ours : OutsideBios (packet.target + i)) :
    mem' (packet.target + i) = disk.bytes (sectorSize * packet.lba + i) := by
  have within : i < (disk.sectors packet.lba packet.sectors.toNat).length := by
    rw [disk.length_sectors]
    exact inside
  rw [eq_of_readSectors done ours, storeBytes_inside _ within]
  simp [DiskImage.sectors, loadBytes]

/-- Outside the sectors and the packet the memory is as before. -/
theorem readSectors_outside (done : readSectors bios addr packet mem = some mem') {place : ℕ}
    (ours : OutsideBios place)
    (apart : place < packet.target ∨ packet.target + sectorSize * packet.sectors.toNat ≤ place)
    (notPacket : place < addr ∨ addr + 16 ≤ place) : mem' place = mem place := by
  have length := disk.length_sectors packet.lba packet.sectors.toNat
  rw [eq_of_readSectors done ours]
  rcases apart with below | above
  · rw [storeBytes_of_lt below, packet.store_of_outside addr notPacket]
  · rw [storeBytes_of_le (by omega), packet.store_of_outside addr notPacket]

end Read

namespace Binaries

variable (binaries : Binaries)

/-- The kernel on the disk, and the zeros behind it. -/
theorem bytes_kernel (room : binaries.stage2.length ≤ 8 * sectorSize) (i : ℕ) :
    binaries.disk.bytes (sectorSize * 9 + i) = binaries.kernel.getD i 0 := by
  have length := binaries.length_stage1
  have sector : sectorSize = 512 := rfl
  have behind : binaries.disk.bytes (sectorSize * 9 + i) = binaries.kernel.getD i
      (storeBytes (sectorSize * 1) binaries.stage2
        (storeBytes (sectorSize * 0) binaries.stage1 fun _ => 0) (sectorSize * 9 + i)) :=
    storeBytes_getD ..
  rw [behind, storeBytes_of_le (by omega), storeBytes_of_le (by omega)]

/-- The second stage on the disk, as far as the kernel leaves room for it. -/
theorem bytes_stage2 {i : ℕ} (room : i < 8 * sectorSize) :
    binaries.disk.bytes (sectorSize * 1 + i) = binaries.stage2.getD i 0 := by
  have length := binaries.length_stage1
  have sector : sectorSize = 512 := rfl
  have before : binaries.disk.bytes (sectorSize * 1 + i) =
      storeBytes (sectorSize * 1) binaries.stage2
        (storeBytes (sectorSize * 0) binaries.stage1 fun _ => 0) (sectorSize * 1 + i) :=
    storeBytes_of_lt (by omega) _ _
  rw [before, storeBytes_getD, storeBytes_of_le (by omega)]

end Binaries

/-- A BIOS that reads whatever it is asked for. -/
def readyBios (disk : DiskImage) : DiskBios disk where
  read packet mem :=
    (false, storeBytes packet.target (disk.sectors packet.lba packet.sectors.toNat) mem)
  delivers _ _ _ _ _ := rfl

/-- Two binaries of one instruction each, behind a first stage. -/
def sampleBinaries : Binaries where
  stage1 := List.replicate sectorSize 0
  stage2 := [0xF4]
  kernel := [0xF4]
  length_stage1 := List.length_replicate

def sampleStage1 : Stage1 := ⟨0x7D00, by decide, by decide⟩

/-! ## The second stage -/

/-- **The second stage is whole in memory exactly if it has at most five sectors.** The first
stage reads no more, whatever the length of `stage2.bin`. It builds its packet in its own image, and
that is the packet that the BIOS finds. -/
theorem secondStage_whole_iff (binaries : Binaries) (bios : DiskBios binaries.disk) (stage1 : Stage1)
    (works : ∀ mem, (loadStage2 bios stage1 mem).isSome) :
    ((∀ mem mem', loadStage2 bios stage1 mem = some mem' →
        loadBytes mem' 0x7E00 binaries.stage2.length = binaries.stage2) ↔
      binaries.stage2.length ≤ 5 * sectorSize) ∧
    ∀ mem, .load (stage2Packet.store stage1.readPacket mem) stage1.readPacket = stage2Packet := by
  have inPlace := stage1.inside
  have sector : sectorSize = 512 := rfl
  refine ⟨?_, fun mem => stage2Packet.load_store stage1.readPacket mem⟩
  constructor
  · intro whole
    by_contra long
    -- The first byte behind the five sectors is what it was.
    let other : Byte := binaries.stage2.getD (5 * sectorSize) 0 + 1
    obtain ⟨mem', done⟩ := Option.isSome_iff_exists.mp (works fun _ => other)
    have kept : mem' (0x7E00 + 5 * sectorSize) = other := by
      refine readSectors_outside done (.inl (by omega)) (.inr ?_) (.inr ?_)
      · exact le_of_eq rfl
      · omega
    have byte : (loadBytes mem' 0x7E00 binaries.stage2.length).getD (5 * sectorSize) 0 = other := by
      rw [List.getD_eq_getElem _ _ (by rw [loadBytes, List.length_map, List.length_range]; omega)]
      simpa [loadBytes] using kept
    rw [whole _ mem' done] at byte
    have different : other ≠ binaries.stage2.getD (5 * sectorSize) 0 := by
      simp only [other, ne_eq]
      bv_omega
    exact different byte.symm
  · intro short mem mem' done
    apply List.ext_getElem
    · rw [loadBytes, List.length_map, List.length_range]
    · intro i inside inside'
      have few : i < 512 * 5 := by omega
      have ours : OutsideBios (16 * 0 + 0x7E00 + i) := .inl (by omega)
      have read := readSectors_inside done few ours
      have stored := binaries.bytes_stage2 (i := i) (by omega)
      rw [List.getD_eq_getElem _ _ inside'] at stored
      simp only [loadBytes, List.getElem_map, List.getElem_range]
      exact read.trans stored

/-- A stage of one byte is whole. -/
theorem secondStage_whole_sampleBinaries :
    (∀ mem, (loadStage2 (readyBios sampleBinaries.disk) sampleStage1 mem).isSome) ∧
      ∀ mem mem', loadStage2 (readyBios sampleBinaries.disk) sampleStage1 mem = some mem' →
        loadBytes mem' 0x7E00 1 = [0xF4] :=
  ⟨fun _ => rfl,
    (secondStage_whole_iff sampleBinaries (readyBios sampleBinaries.disk) sampleStage1
      fun _ => rfl).1.mpr (by decide)⟩

/-! ## The kernel -/

/-- The end of the sectors that are read for the kernel. -/
def loadEnd : ℕ := 0x16000

/-- What the linked kernel has at an address: the bytes of `kernel.bin`, and behind them the
zeros of its `.bss`. -/
def Binaries.imageByte (binaries : Binaries) (addr : ℕ) : Byte :=
  binaries.kernel.getD (addr - kernelStart.toNat) 0

/-- What the loop and the stores around it leave alone. -/
theorem getMemoryMap_above {stage2 : Stage2Layout} {replies : List Reply}
    (inTime : EndsInTime e820MaxEntries replies) (mem : ℕ → Byte) {addr : ℕ} (above : 0x10000 ≤ addr) :
    getMemoryMap stage2.toStage2 replies mem addr = mem addr := by
  have inside := stage2.inside
  have notCount : ¬ stage2.toStage2.IsCount addr := by
    rw [Stage2.IsCount]
    omega
  have word (value : BitVec 16) : (leBytes 2 value.toNat).length = 2 := length_leBytes ..
  have start : (0x5000 : BitVec 16).toNat = 0x5000 := rfl
  let s : RealMode := ⟨0x5000, write16 stage2.memmapCount 0 mem⟩
  have loop : (e820Loop stage2.toStage2 replies s).mem addr = s.mem addr := by
    refine inTime.mem_e820Loop ?_ (.inr ?_) notCount
    · change (0x5000 : BitVec 16).toNat + 24 * 128 + 24 < 2 ^ 16
      decide
    · change (0x5000 : BitVec 16).toNat + 24 * 128 ≤ addr
      omega
  have count : s.mem addr = mem addr := storeBytes_of_le (by rw [word]; omega) mem
  rw [getMemoryMap, write16, storeBytes_of_le (by rw [word]; omega), write32,
    storeBytes_of_le (by rw [length_leBytes]; omega)]
  exact loop.trans count

section Boot

variable {binaries : Binaries} {bios : DiskBios binaries.disk} {stage1 : Stage1} {stage2 : Stage2Layout}
  {extension : ExtensionReply} {replies : List Reply} {mem entry : ℕ → Byte}

/-- The steps of a boot that gets to the kernel. -/
theorem exists_steps (booted : boot bios stage1 stage2 extension replies mem = some entry) :
    ∃ first second, loadStage2 bios stage1 mem = some first ∧ loadKernel bios stage2 first = some second ∧
      entry = getMemoryMap stage2.toStage2 replies second := by
  rw [boot] at booted
  cases first : loadStage2 bios stage1 mem with
  | none =>
      rw [first] at booted
      cases booted
  | some memory =>
      rw [first] at booted
      change (if extension.carry = true ∨ extension.bx ≠ 0xAA55 then none else _) = some entry at booted
      split at booted
      case isTrue => cases booted
      case isFalse =>
          cases second : loadKernel bios stage2 memory with
          | none =>
              rw [second] at booted
              cases booted
          | some loaded =>
              rw [second] at booted
              exact ⟨memory, loaded, rfl, second, (Option.some.inj booted).symm⟩

variable (inTime : EndsInTime e820MaxEntries replies)
  (booted : boot bios stage1 stage2 extension replies mem = some entry)
include inTime booted

/-- Up to `0x16000` the memory is the disk from its tenth sector on, whatever it was before. -/
theorem entry_disk {addr : ℕ} (above : kernelStart.toNat ≤ addr) (below : addr < loadEnd) :
    entry addr = binaries.disk.bytes (sectorSize * 9 + (addr - kernelStart.toNat)) := by
  obtain ⟨first, second, -, kernel, rfl⟩ := exists_steps booted
  have start : kernelStart.toNat = 0x10000 := rfl
  have limit : loadEnd = 0x16000 := rfl
  obtain ⟨i, rfl⟩ := Nat.exists_eq_add_of_le above
  have few : i < 512 * 48 := by omega
  have ours : OutsideBios (16 * 0x1000 + 0 + i) := .inl (by omega)
  rw [getMemoryMap_above inTime second (by omega), Nat.add_sub_cancel_left]
  exact readSectors_inside kernel few ours

/-- **Up to `0x16000` the memory is the linked kernel.** -/
theorem entry_below (room : binaries.stage2.length ≤ 8 * sectorSize) {addr : ℕ}
    (above : kernelStart.toNat ≤ addr) (below : addr < loadEnd) :
    entry addr = binaries.imageByte addr := by
  rw [entry_disk inTime booted above below, binaries.bytes_kernel room]
  rfl

/-- **From `0x16000` on the memory is what it was**, but for what the BIOS has for itself. -/
theorem entry_above {addr : ℕ} (above : loadEnd ≤ addr) (ours : OutsideBios addr) :
    entry addr = mem addr := by
  obtain ⟨first, second, stage, kernel, rfl⟩ := exists_steps booted
  have limit : loadEnd = 0x16000 := rfl
  have packet1 := stage1.inside
  have packet2 := stage2.packetInside
  have sector : sectorSize = 512 := rfl
  have kept : second addr = first addr := by
    refine readSectors_outside kernel ours (.inr ?_) (.inr (by omega))
    change 16 * 0x1000 + 0 + 512 * 48 ≤ addr
    omega
  have keptFirst : first addr = mem addr := by
    refine readSectors_outside stage ours (.inr ?_) (.inr (by omega))
    change 16 * 0 + 0x7E00 + 512 * 5 ≤ addr
    omega
  rw [getMemoryMap_above inTime second (by omega), kept, keptFirst]

end Boot

/-- **The kernel finds itself whole and its `.bss` zero exactly if it ends at or below
`0x16000`.** -/
theorem kernelImage_whole_iff (binaries : Binaries) (bios : DiskBios binaries.disk) (stage1 : Stage1)
    (stage2 : Stage2Layout) (extension : ExtensionReply) (replies : List Reply)
    (inTime : EndsInTime e820MaxEntries replies)
    (works : ∀ mem, (boot bios stage1 stage2 extension replies mem).isSome)
    (room : binaries.stage2.length ≤ 5 * sectorSize) (image : KernelImage) :
    (∀ mem entry, boot bios stage1 stage2 extension replies mem = some entry →
        ∀ addr, kernelStart.toNat ≤ addr → addr < image.kernelEnd.toNat →
          entry addr = binaries.imageByte addr) ↔
      image.kernelEnd.toNat ≤ loadEnd := by
  have sector : sectorSize = 512 := rfl
  constructor
  · intro whole
    by_contra long
    -- The first byte that is not read is what it was.
    let other : Byte := binaries.imageByte loadEnd + 1
    obtain ⟨entry, booted⟩ := Option.isSome_iff_exists.mp (works fun _ => other)
    have kept := entry_above inTime booted (le_refl loadEnd) (.inl (by decide))
    rw [whole _ entry booted loadEnd (by decide) (not_le.mp long)] at kept
    have different : binaries.imageByte loadEnd ≠ other := by
      simp only [other, ne_eq]
      bv_omega
    exact different kept
  · intro short mem entry booted addr above below
    exact entry_below inTime booted (by omega) above (below.trans_le short)

/-- A BIOS without a memory map. -/
theorem endsInTime_nil (room : ℕ) : EndsInTime room [] := by
  intro reply present
  simp at present

def sampleLayout : Stage2Layout where
  toStage2 := sampleImage
  readPacket := 0x7F00
  packetAbove := by decide
  packetInside := by decide

abbrev sampleBoot (mem : ℕ → Byte) : Option (ℕ → Byte) :=
  boot (readyBios sampleBinaries.disk) sampleStage1 sampleLayout ⟨false, 0xAA55⟩ [] mem

/-- A kernel of one byte with a `.bss` up to `0x16000`. -/
theorem kernelImage_whole_sampleBinaries :
    (∀ mem, (sampleBoot mem).isSome) ∧
      ∀ mem entry, sampleBoot mem = some entry →
        ∀ addr, 0x10000 ≤ addr → addr < 0x16000 → entry addr = sampleBinaries.imageByte addr :=
  ⟨fun _ => rfl,
    (kernelImage_whole_iff sampleBinaries (readyBios sampleBinaries.disk) sampleStage1 sampleLayout
      ⟨false, 0xAA55⟩ [] (endsInTime_nil _) (fun _ => rfl) (by decide)
      ⟨0x16000, by decide, by decide⟩).mpr (by decide)⟩

/-! ## The traces of a double fault -/

/-- The stores of `double_fault_handler`. -/
def doubleFaultHandler (mem : ℕ → Byte) : ℕ → Byte :=
  let mem := write32 0x15000 0xDEADBEEF mem
  let mem := write32 0x15004 0xCAFEBABE mem
  let mem := write32 0x15008 0x12345678 mem
  let mem := write16 0xB8000 0x4F44 mem
  write16 0xB8002 0x4F46 mem

/-- The words that `check_double_fault_breadcrumbs` prints, and whether they are found. What
`printk_init` and the two lines before it store is left out. -/
def checkDoubleFaultBreadcrumbs (mem : ℕ → Byte) : List (Word × Bool) :=
  [(read32 mem 0x15000, read32 mem 0x15000 = 0xDEADBEEF),
    (read32 mem 0x15004, read32 mem 0x15004 = 0xCAFEBABE),
    (read32 mem 0x15008, read32 mem 0x15008 = 0x12345678)]

theorem read32_congr {mem mem' : ℕ → Byte} {addr : ℕ}
    (same : ∀ place, addr ≤ place → place < addr + 4 → mem place = mem' place) :
    read32 mem addr = read32 mem' addr := by
  rw [read32, read32, loadBytes_congr fun i inside => same (addr + i) (by omega) (by omega)]

/-- The words are those of the linked kernel. -/
theorem checkDoubleFaultBreadcrumbs_congr {mem mem' : ℕ → Byte}
    (same : ∀ place, 0x15000 ≤ place → place < 0x1500C → mem place = mem' place) :
    checkDoubleFaultBreadcrumbs mem = checkDoubleFaultBreadcrumbs mem' := by
  have first : read32 mem 0x15000 = read32 mem' 0x15000 :=
    read32_congr fun place _ _ => same place (by omega) (by omega)
  have second : read32 mem 0x15004 = read32 mem' 0x15004 :=
    read32_congr fun place _ _ => same place (by omega) (by omega)
  have third : read32 mem 0x15008 = read32 mem' 0x15008 :=
    read32_congr fun place _ _ => same place (by omega) (by omega)
  rw [checkDoubleFaultBreadcrumbs, checkDoubleFaultBreadcrumbs, first, second, third]

/-- **No kernel is entered with the traces of a double fault.** The sectors of the kernel are read
over them, so the words of `check_double_fault_breadcrumbs` are what they would have been without
the fault; and with a second stage that leaves the kernel its sectors and a `kernel.bin` that ends
before them they are zeros. -/
theorem breadcrumbs_lost {binaries : Binaries} {bios : DiskBios binaries.disk} {stage1 : Stage1}
    {stage2 : Stage2Layout} {extension : ExtensionReply} {replies : List Reply}
    (inTime : EndsInTime e820MaxEntries replies) {mem entry entry' : ℕ → Byte}
    (booted : boot bios stage1 stage2 extension replies (doubleFaultHandler mem) = some entry)
    (booted' : boot bios stage1 stage2 extension replies mem = some entry') :
    checkDoubleFaultBreadcrumbs entry = checkDoubleFaultBreadcrumbs entry' ∧
      (binaries.stage2.length ≤ 8 * sectorSize → binaries.kernel.length ≤ 0x5000 →
        checkDoubleFaultBreadcrumbs entry = [(0, false), (0, false), (0, false)]) := by
  have start : kernelStart.toNat = 0x10000 := rfl
  have limit : loadEnd = 0x16000 := rfl
  constructor
  · refine checkDoubleFaultBreadcrumbs_congr fun place above below => ?_
    rw [entry_disk inTime booted (by omega) (by omega), entry_disk inTime booted' (by omega) (by omega)]
  · intro room short
    have zeros : checkDoubleFaultBreadcrumbs entry = checkDoubleFaultBreadcrumbs fun _ => 0 := by
      refine checkDoubleFaultBreadcrumbs_congr fun place above below => ?_
      rw [entry_below inTime booted room (by omega) (by omega), Binaries.imageByte,
        List.getD_eq_default _ _ (by omega)]
    rw [zeros]
    decide

/-- Two boots of a small kernel, one of them after a double fault. -/
theorem breadcrumbs_lost_sampleBinaries :
    ∃ entry entry' : ℕ → Byte,
      sampleBoot (doubleFaultHandler fun _ => 0) = some entry ∧ sampleBoot (fun _ => 0) = some entry' ∧
        checkDoubleFaultBreadcrumbs (doubleFaultHandler fun _ => 0) =
          [(0xDEADBEEF, true), (0xCAFEBABE, true), (0x12345678, true)] ∧
        checkDoubleFaultBreadcrumbs entry = checkDoubleFaultBreadcrumbs entry' := by
  have works (mem : ℕ → Byte) : ∃ entry, sampleBoot mem = some entry := ⟨_, rfl⟩
  obtain ⟨entry, booted⟩ := works (doubleFaultHandler fun _ => 0)
  obtain ⟨entry', booted'⟩ := works fun _ => 0
  exact ⟨entry, entry', booted, booted', by decide,
    (breadcrumbs_lost (endsInTime_nil _) booted booted').1⟩

end KernelV.Bootloader
