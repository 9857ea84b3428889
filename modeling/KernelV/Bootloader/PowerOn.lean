import KernelV.Bootloader.DiskImage
import KernelV.Memory.PagedPrograms

/-!
# From power on to running programs

The parts of the system together: the stages of the bootloader read the disk and ask the BIOS for the
memory map, the kernel takes its memory over with what it finds, answers page faults, and programs
run.

What the kernel knows of the memory is what the BIOS delivered (`available_mapInMemory`). So no program
ever changes a word that the BIOS did not deliver as available, and what it holds is what it held
before the machine was started (`powerOn_keeps`). And the kernel that runs is the one on the disk: all
that is loaded of it stays as it was linked.
-/

set_option autoImplicit false

namespace KernelV.Bootloader

open Library Memory

/-! ## Bytes and words -/

/-- The memory by words. -/
def wordsOf (mem : ℕ → Byte) : Word → Word := fun addr => read32 mem addr.toNat

theorem leBytes_wordsOf (mem : ℕ → Byte) (addr : Word) :
    leBytes 4 (wordsOf mem addr).toNat = loadBytes mem addr.toNat 4 := by
  have length : (loadBytes mem addr.toNat 4).length = 4 := by
    rw [loadBytes, List.length_map, List.length_range]
  have small := leValue_lt (loadBytes mem addr.toNat 4)
  rw [length] at small
  have value : (wordsOf mem addr).toNat = leValue (loadBytes mem addr.toNat 4) := by
    rw [wordsOf, read32, BitVec.toNat_ofNat]
    exact Nat.mod_eq_of_lt small
  have bytes := leBytes_leValue (loadBytes mem addr.toNat 4)
  rwa [length, ← value] at bytes

/-! ## The memory map of the kernel -/

/-- An available entry of the BIOS has the address. -/
def Delivered (entries : List BiosEntry) (addr : ℕ) : Prop :=
  ∃ entry ∈ entries, entry.region.type = e820TypeAvailable ∧ entry.region.Contains addr

/-- A sequence with room for one more entry ends in time. -/
theorem Delivers.endsInTime {replies : List Reply} {entries : List BiosEntry}
    (delivers : Delivers replies entries) {room : ℕ} (few : entries.length < room) :
    EndsInTime room replies := by
  induction delivers generalizing room with
  | carry set =>
      obtain ⟨room, rfl⟩ := Nat.exists_eq_add_one_of_ne_zero (Nat.ne_of_gt few)
      intro last found all
      have first := (all _ List.mem_cons_self).1.1
      rw [set] at first
      cases first
  | signature clear wrong =>
      obtain ⟨room, rfl⟩ := Nat.exists_eq_add_one_of_ne_zero (Nat.ne_of_gt few)
      intro last found all
      exact absurd (all _ List.mem_cons_self).1.2 wrong
  | last clear right stored final =>
      obtain ⟨room, rfl⟩ := Nat.exists_eq_add_one_of_ne_zero (Nat.ne_of_gt (Nat.zero_lt_of_lt few))
      intro last found all
      exact absurd final (all _ List.mem_cons_self).2
  | more clear right stored continued rest ih =>
      obtain ⟨room, rfl⟩ := Nat.exists_eq_add_one_of_ne_zero (Nat.ne_of_gt (Nat.zero_lt_of_lt few))
      intro last found all
      exact ih (Nat.lt_of_succ_lt_succ few) last found fun earlier member =>
        all earlier (List.mem_cons_of_mem _ member)

/-- Only bases, lengths and types count. -/
theorem available_iff_exists_region {map : List E820Entry} {addr : ℕ} :
    Available map addr ↔
      ∃ region ∈ map.map E820Entry.toRegion, region.type = e820TypeAvailable ∧ region.Contains addr := by
  constructor
  · rintro ⟨entry, listed, available, inside⟩
    exact ⟨entry.toRegion, List.mem_map_of_mem listed, eq_of_beq available, inside⟩
  · rintro ⟨region, listed, available, inside⟩
    obtain ⟨entry, member, rfl⟩ := List.mem_map.mp listed
    exact ⟨entry, member, beq_iff_eq.mpr available, inside⟩

section Map

variable {image : Stage2} {replies : List Reply} {entries : List BiosEntry}

/-- **The kernel takes for available what the BIOS delivered as available.** -/
theorem available_mapInMemory (delivers : Delivers replies entries)
    (few : entries.length < e820MaxEntries) (mem : ℕ → Byte) {addr : ℕ} :
    Available (mapInMemory (getMemoryMap image replies mem)) addr ↔ Delivered entries addr := by
  rw [available_iff_exists_region, map_mapInMemory delivers (Nat.le_of_lt few) mem]
  constructor
  · rintro ⟨region, listed, available, inside⟩
    obtain ⟨entry, member, rfl⟩ := List.mem_map.mp listed
    exact ⟨entry, member, available, inside⟩
  · rintro ⟨entry, member, available, inside⟩
    exact ⟨entry.region, List.mem_map_of_mem member, available, inside⟩

end Map

/-! ## From power on -/

section PowerOn

variable {binaries : Binaries} {bios : DiskBios binaries.disk} {stage1 : Stage1} {stage2 : Stage2Layout}
  {extension : ExtensionReply} {replies : List Reply} {entries : List BiosEntry} {mem entry : ℕ → Byte}
  {image : KernelImage} {fuel : ℕ} {frameBitmap : ℕ → BitVec 8} {depth : ℕ} {own : OwnPlaces}
  {enter leave : SideStores depth own} {k last : Kernel} {R : Type} {restarts : ℕ}
  {program : Program Word Interrupted Word R} {result : R}

/-- **From power on, through boot, faults and a program.** What the program leaves behind has
every word of the loaded sectors as it was linked, but for the words that the kernel itself stores
to; and every word from 1 MiB on that the BIOS did not deliver as available is what it was before
the machine was started. -/
theorem powerOn_keeps (delivers : Delivers replies entries) (few : entries.length < e820MaxEntries)
    (room : binaries.stage2.length ≤ 5 * sectorSize)
    (booted : boot bios stage1 stage2 extension replies mem = some entry)
    (service : InService enter leave image fuel (mapInMemory entry) frameBitmap (wordsOf entry) k)
    (safe : ∀ frame, (parseMapInMemory entry .empty).AtRisk frame →
      ∀ offset < 4096, Delivered entries (frame * 4096 % 2 ^ 32 + offset))
    (within : program.Within PagedWord (HasRoom depth))
    (ran : (kernelPager enter leave).run (restarts + 1) program k = some (.ok (result, last))) :
    (∀ addr : Word, kernelStart.toNat ≤ addr.toNat → addr.toNat + 4 ≤ loadEnd → own.Spares addr →
        leBytes 4 (last.mem addr).toNat = loadBytes binaries.imageByte addr.toNat 4) ∧
      ∀ addr : Word, 0x100000 ≤ addr.toNat → ¬ Delivered entries addr.toNat →
        leBytes 4 (last.mem addr).toNat = loadBytes mem addr.toNat 4 := by
  have inTime := delivers.endsInTime few
  have sector : sectorSize = 512 := rfl
  have limit : loadEnd = 0x16000 := rfl
  have start : kernelStart.toNat = 0x10000 := rfl
  have served := service.program within ran
  have found (addr : ℕ) : Available (mapInMemory entry) addr ↔ Delivered entries addr := by
    obtain ⟨first, second, -, -, rfl⟩ := exists_steps booted
    exact available_mapInMemory delivers few second
  constructor
  · intro addr above below spared
    have notDirectory : entryFrame addr ≠ pageDirStartAddr := by
      intro directory
      have value := congrArg BitVec.toNat directory
      rw [toNat_entryFrame] at value
      change addr.toNat / 4096 * 4096 = 0x80000 at value
      omega
    have notFirstTable : entryFrame addr ≠ pageTableStartAddr := by
      intro firstTable
      have value := congrArg BitVec.toNat firstTable
      rw [toNat_entryFrame] at value
      change addr.toNat / 4096 * 4096 = 0x81000 at value
      omega
    have kept : last.mem addr = wordsOf entry addr :=
      (served.keeps spared fun t init =>
        reserved_of_low (owned_setupPaging (initialized_of_pmmInit init).2.maxFrameIdx_lt rfl) (by omega)
          notDirectory notFirstTable).same
    rw [kept, leBytes_wordsOf]
    exact loadBytes_congr fun i inside =>
      entry_below inTime booted (by omega) (by omega) (by omega)
  · intro addr high unavailable
    have whole : ∀ frame, (parseAndPrintE820Map (mapInMemory entry) .empty).AtRisk frame →
        FrameAvailable (mapInMemory entry) (frame * 4096 % 2 ^ 32) := fun frame risk offset inside =>
      (found _).mpr (safe frame risk offset inside)
    have kept : last.mem addr = wordsOf entry addr :=
      (served.keeps (own.spares_of_high high) fun t init =>
        reserved_of_unavailable init whole high fun available =>
          unavailable ((found _).mp available)).same
    rw [kept, leBytes_wordsOf]
    exact loadBytes_congr fun i inside => entry_above inTime booted (by omega) (.inr (by omega))

end PowerOn

/-- A BIOS with two megabytes from 1 MiB on. -/
def roomyReply : Reply := deliveringReply roomyRegion 0

theorem delivers_roomyReply : Delivers [roomyReply] [⟨roomyRegion, none⟩] := .last rfl rfl rfl rfl

theorem regions_roomyReply (image : Stage2) (mem : ℕ → Byte) :
    (parseAndPrintE820Map (mapInMemory (getMemoryMap image [roomyReply] mem)) .empty).regions =
      [roomyRegion] := by
  have found : (mapInMemory (getMemoryMap image [roomyReply] mem)).map E820Entry.toRegion = [roomyRegion] :=
    map_mapInMemory delivers_roomyReply (by decide) mem
  obtain ⟨entry, single, region⟩ := List.map_eq_singleton_iff.mp found
  have available : entry.isAvailable = true := by
    have type := congrArg MemoryRegion.type region
    exact beq_iff_eq.mpr type
  rw [regions_parseAndPrintE820Map, single, List.filter_singleton, available]
  exact congrArg (fun region => [region]) region

/-- From a memory of fives: the program has its result, the kernel is on the disk, and the memory
behind the available one holds fives. -/
theorem powerOn_keeps_roomyReply :
    ∃ entry k last,
      boot (readyBios sampleBinaries.disk) sampleStage1 sampleLayout ⟨false, 0xAA55⟩ [roomyReply]
        (fun _ => 5) = some entry ∧
      Running Memory.sampleImage (2 ^ 20 + 1) (mapInMemory entry) (fun _ => 0) (wordsOf entry) k ∧
      (kernelPager sampleSides sampleSides).run 1 storeAndLoad k = some (.ok (7, last)) ∧
      leBytes 4 (last.mem 0x10000).toNat = [0xF4, 0, 0, 0] ∧
      leBytes 4 (last.mem 0x400000).toNat = [5, 5, 5, 5] := by
  obtain ⟨entry, booted⟩ : ∃ entry, boot (readyBios sampleBinaries.disk) sampleStage1 sampleLayout
      ⟨false, 0xAA55⟩ [roomyReply] (fun _ => 5) = some entry := ⟨_, rfl⟩
  have single : (parseAndPrintE820Map (mapInMemory entry) .empty).regions = [roomyRegion] := by
    obtain ⟨first, second, -, -, rfl⟩ := exists_steps booted
    exact regions_roomyReply _ second
  obtain ⟨k, last, running, ran⟩ := run_storeAndLoad_roomyRegion single (wordsOf entry)
  have behind : ¬ Delivered [⟨roomyRegion, none⟩] (0x400000 : Word).toNat := by
    rintro ⟨entry, listed, -, -, below⟩
    rw [List.mem_singleton.mp listed] at below
    exact absurd below (by decide)
  obtain ⟨loaded, kept⟩ := powerOn_keeps delivers_roomyReply (by decide) (by decide) booted (.booted running)
    (fun frame risk => absurd risk (not_atRisk_roomyRegion single frame)) within_storeAndLoad ran
  refine ⟨entry, k, last, booted, running, ran, ?_, ?_⟩
  · exact (loaded 0x10000 (by decide) (by decide) spares_sampleOwn).trans (by decide)
  · exact (kept 0x400000 (by decide) behind).trans (by decide)

end KernelV.Bootloader
