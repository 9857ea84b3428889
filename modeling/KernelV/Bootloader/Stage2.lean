import KernelV.Library.ByteMemory
import KernelV.Memory.MemoryMap

/-!
# How the memory map gets to the kernel

The second stage of the bootloader asks the BIOS for the memory map, entry by entry, until the
BIOS says that there are no more or fails. It stores the entries one behind the other at
`0x5000`, counts them, and leaves the count at `0x2004`. The kernel knows these two addresses
and the layout of an entry, and nothing else.

`Stored` says that the entries so far are in memory and counted. A reply that delivers an entry
extends it (`Stored.deliver`), a reply that fails does not disturb it (`Stored.store_behind`).
The kernel then finds what the BIOS delivered (`regions_of_replies`).
-/

set_option autoImplicit false

namespace KernelV.Bootloader

open Library Memory

/-! ## The BIOS -/

/-- An entry as the BIOS delivers it: with or without the last four bytes. -/
structure BiosEntry where
  region : MemoryRegion
  attributes : Option Word

/-- The 20 or 24 bytes of an entry. -/
def BiosEntry.bytes (entry : BiosEntry) : List Byte :=
  leBytes 8 entry.region.base.toNat ++ (leBytes 8 entry.region.length.toNat ++
    (leBytes 4 entry.region.type.toNat ++
      (entry.attributes.map fun attributes => leBytes 4 attributes.toNat).getD []))

/-- What comes back from `int 0x15`: the carry flag, two registers, and the bytes stored at
`ES:DI`, for which the caller gave room for 24. -/
structure Reply where
  carry : Bool
  eax : Word
  ebx : Word
  stored : List Byte
  short : stored.length ≤ 24

def smap : Word := 0x534D4150

/-- A sequence of replies delivers these entries and then ends. -/
inductive Delivers : List Reply → List BiosEntry → Prop where
  | carry {reply : Reply} {replies : List Reply} (set : reply.carry = true) :
      Delivers (reply :: replies) []
  | signature {reply : Reply} {replies : List Reply} (clear : reply.carry = false)
      (wrong : reply.eax ≠ smap) : Delivers (reply :: replies) []
  | last {reply : Reply} {replies : List Reply} {entry : BiosEntry} (clear : reply.carry = false)
      (right : reply.eax = smap) (stored : reply.stored = entry.bytes) (final : reply.ebx = 0) :
      Delivers (reply :: replies) [entry]
  | more {reply : Reply} {replies : List Reply} {entry : BiosEntry} {entries : List BiosEntry}
      (clear : reply.carry = false) (right : reply.eax = smap) (stored : reply.stored = entry.bytes)
      (continued : reply.ebx ≠ 0) (rest : Delivers replies entries) :
      Delivers (reply :: replies) (entry :: entries)

/-! ## The bootloader -/

def read16 (mem : ℕ → Byte) (addr : ℕ) : BitVec 16 := BitVec.ofNat 16 (leValue (loadBytes mem addr 2))

def write16 (addr : ℕ) (value : BitVec 16) (mem : ℕ → Byte) : ℕ → Byte :=
  storeBytes addr (leBytes 2 value.toNat) mem

def write32 (addr : ℕ) (value : Word) (mem : ℕ → Byte) : ℕ → Byte :=
  storeBytes addr (leBytes 4 value.toNat) mem

/-- The image of the second stage, which lies from `0x7e00` on in the first segment. -/
structure Stage2 where
  memmapCount : ℕ
  above : 0x7e00 ≤ memmapCount
  inside : memmapCount + 2 ≤ 0x10000

/-- The state of the loop. The segment registers are zero. -/
structure RealMode where
  di : BitVec 16
  mem : ℕ → Byte

/-- `.e820_loop`, on the replies of the BIOS. A sequence that ends does so before its list
does. -/
def e820Loop (image : Stage2) : List Reply → RealMode → RealMode
  | [], s => s
  | reply :: replies, s =>
      let s := { s with mem := storeBytes s.di.toNat reply.stored s.mem }
      if reply.carry then s
      else if reply.eax ≠ smap then s
      else
        let s := { s with di := s.di + 24 }
        let s := { s with
          mem := write16 image.memmapCount (read16 s.mem image.memmapCount + 1) s.mem }
        if reply.ebx ≠ 0 then e820Loop image replies s else s

/-- `GetMemoryMap`. -/
def getMemoryMap (image : Stage2) (replies : List Reply) (mem : ℕ → Byte) : ℕ → Byte :=
  let mem := write16 image.memmapCount 0 mem
  let mem := (e820Loop image replies ⟨0x5000, mem⟩).mem
  let mem := write32 0x2000 0x5000 mem
  write16 0x2004 (read16 mem image.memmapCount) mem

/-! ## The kernel -/

abbrev e820MaxEntries : ℕ := 128
def e820MapAddress : ℕ := 0x5000
def e820MapCountPtr : ℕ := 0x2004

/-- The packed `e820_entry_t` at an address. -/
def readEntry (mem : ℕ → Byte) (addr : ℕ) : E820Entry where
  base := BitVec.ofNat 64 (leValue (loadBytes mem addr 8))
  length := BitVec.ofNat 64 (leValue (loadBytes mem (addr + 8) 8))
  type := BitVec.ofNat 32 (leValue (loadBytes mem (addr + 16) 4))

/-- The entries that `parse_and_print_e820_map` goes through. -/
def mapInMemory (mem : ℕ → Byte) : List E820Entry :=
  (List.range (read16 mem e820MapCountPtr).toNat).map fun i => readEntry mem (e820MapAddress + 24 * i)

/-- `parse_and_print_e820_map`, on the memory. -/
def parseMapInMemory (mem : ℕ → Byte) (table : RegionTable) : RegionTable :=
  parseAndPrintE820Map (mapInMemory mem) table

/-! ## Numbers in memory -/

theorem read16_write16 (addr : ℕ) (value : BitVec 16) (mem : ℕ → Byte) :
    read16 (write16 addr value mem) addr = value := by
  have loaded := loadBytes_storeBytes addr [] (leBytes 2 value.toNat) [] mem
  rw [List.nil_append, List.append_nil, length_leBytes] at loaded
  have word : read16 (write16 addr value mem) addr = BitVec.ofNat 16 (leValue (leBytes 2 value.toNat)) :=
    congrArg (fun bytes => BitVec.ofNat 16 (leValue bytes)) loaded
  rw [word, ofNat_leValue_leBytes value rfl]

theorem read16_storeBytes {addr place : ℕ} {bytes : List Byte}
    (apart : place + 2 ≤ addr ∨ addr + bytes.length ≤ place) (mem : ℕ → Byte) :
    read16 (storeBytes addr bytes mem) place = read16 mem place := by
  rw [read16, read16, loadBytes_storeBytes_of_apart apart]

/-- An entry does not change with what is stored elsewhere. -/
theorem readEntry_storeBytes {addr place : ℕ} {bytes : List Byte}
    (apart : place + 24 ≤ addr ∨ addr + bytes.length ≤ place) (mem : ℕ → Byte) :
    readEntry (storeBytes addr bytes mem) place = readEntry mem place := by
  rw [readEntry, readEntry, loadBytes_storeBytes_of_apart (by omega),
    loadBytes_storeBytes_of_apart (by omega), loadBytes_storeBytes_of_apart (by omega)]

/-- **The kernel reads the entry that the BIOS stored.** -/
theorem readEntry_bytes (entry : BiosEntry) (addr : ℕ) (mem : ℕ → Byte) :
    (readEntry (storeBytes addr entry.bytes mem) addr).toRegion = entry.region := by
  obtain ⟨⟨base, length, type⟩, attributes⟩ := entry
  generalize stored : (attributes.map fun attributes => leBytes 4 attributes.toNat).getD [] = rest
  have bytes : BiosEntry.bytes ⟨⟨base, length, type⟩, attributes⟩ =
      leBytes 8 base.toNat ++ (leBytes 8 length.toNat ++ (leBytes 4 type.toNat ++ rest)) := by
    rw [← stored]
    rfl
  have baseBytes := loadBytes_storeBytes addr [] (leBytes 8 base.toNat)
    (leBytes 8 length.toNat ++ (leBytes 4 type.toNat ++ rest)) mem
  have lengthBytes := loadBytes_storeBytes addr (leBytes 8 base.toNat) (leBytes 8 length.toNat)
    (leBytes 4 type.toNat ++ rest) mem
  have typeBytes := loadBytes_storeBytes addr (leBytes 8 base.toNat ++ leBytes 8 length.toNat)
    (leBytes 4 type.toNat) rest mem
  rw [List.append_assoc] at typeBytes
  simp only [List.nil_append, List.length_nil, List.length_append, length_leBytes]
    at baseBytes lengthBytes typeBytes
  rw [bytes, readEntry, E820Entry.toRegion]
  simp only [MemoryRegion.mk.injEq]
  refine ⟨?_, ?_, ?_⟩
  · exact (congrArg (fun bytes => BitVec.ofNat 64 (leValue bytes)) baseBytes).trans
      (ofNat_leValue_leBytes base rfl)
  · exact (congrArg (fun bytes => BitVec.ofNat 64 (leValue bytes)) lengthBytes).trans
      (ofNat_leValue_leBytes length rfl)
  · exact (congrArg (fun bytes => BitVec.ofNat 32 (leValue bytes)) typeBytes).trans
      (ofNat_leValue_leBytes type rfl)

/-! ## The loop -/

/-- Entries are in memory, one behind the other, and counted. -/
structure Stored (image : Stage2) (mem : ℕ → Byte) (entries : List MemoryRegion) : Prop where
  count : read16 mem image.memmapCount = BitVec.ofNat 16 entries.length
  entry : ∀ i (inside : i < entries.length),
    (readEntry mem (e820MapAddress + 24 * i)).toRegion = entries[i]

/-- What the BIOS stores behind the entries leaves them and their count alone. -/
theorem Stored.store_behind {image : Stage2} {mem : ℕ → Byte} {entries : List MemoryRegion}
    (stored : Stored image mem entries) (room : entries.length ≤ 128) {bytes : List Byte}
    (short : bytes.length ≤ 24) :
    Stored image (storeBytes (e820MapAddress + 24 * entries.length) bytes mem) entries := by
  have above := image.above
  constructor
  · rw [read16_storeBytes (.inr (by rw [e820MapAddress]; omega))]
    exact stored.count
  · intro i inside
    rw [readEntry_storeBytes (.inl (by omega))]
    exact stored.entry i inside

/-- **A reply that delivers an entry adds it to those in memory.** -/
theorem Stored.deliver {image : Stage2} {mem : ℕ → Byte} {entries : List MemoryRegion}
    (stored : Stored image mem entries) (room : entries.length < 128) (entry : BiosEntry)
    (short : entry.bytes.length ≤ 24) :
    let mem := storeBytes (e820MapAddress + 24 * entries.length) entry.bytes mem
    Stored image (write16 image.memmapCount (read16 mem image.memmapCount + 1) mem)
      (entries ++ [entry.region]) := by
  intro mem
  have above := image.above
  have before : Stored image mem entries := stored.store_behind (Nat.le_of_lt room) short
  have apart (i : ℕ) (inside : i ≤ entries.length) :
      e820MapAddress + 24 * i + 24 ≤ image.memmapCount := by
    rw [e820MapAddress]
    omega
  constructor
  · rw [read16_write16, before.count, List.length_append, List.length_singleton, BitVec.ofNat_add]
    rfl
  · intro i inside
    rw [List.length_append, List.length_singleton] at inside
    rw [write16, readEntry_storeBytes (.inl (apart i (by omega)))]
    rcases Nat.lt_succ_iff_lt_or_eq.mp inside with earlier | rfl
    · rw [before.entry i earlier, List.getElem_append_left earlier]
    · rw [readEntry_bytes]
      simp

/-- **The loop stores what is delivered.** -/
theorem Stored.e820Loop {image : Stage2} {replies : List Reply} {entries : List BiosEntry}
    (delivers : Delivers replies entries) {before : List MemoryRegion} {s : RealMode}
    (di : s.di.toNat = e820MapAddress + 24 * before.length) (stored : Stored image s.mem before)
    (room : before.length + entries.length ≤ 128) :
    Stored image (e820Loop image replies s).mem (before ++ entries.map BiosEntry.region) := by
  induction delivers generalizing before s with
  | @carry reply _ set =>
      rw [Bootloader.e820Loop, if_pos set, di, List.map_nil, List.append_nil]
      exact stored.store_behind room reply.short
  | @signature reply _ clear wrong =>
      rw [Bootloader.e820Loop, if_neg (by simpa using clear), if_pos wrong, di, List.map_nil,
        List.append_nil]
      exact stored.store_behind room reply.short
  | @last reply _ entry clear right bytes final =>
      have short := reply.short
      rw [bytes] at short
      rw [Bootloader.e820Loop, if_neg (by simpa using clear), if_neg (not_not.mpr right),
        if_neg (not_not.mpr final), di, bytes, List.map_singleton]
      exact stored.deliver (Nat.lt_of_succ_le room) entry short
  | @more reply _ entry entries clear right bytes continued rest ih =>
      have short := reply.short
      rw [bytes] at short
      rw [List.length_cons] at room
      have added := stored.deliver (by omega) entry short
      have next : (s.di + 24).toNat = e820MapAddress + 24 * (before ++ [entry.region]).length := by
        rw [BitVec.toNat_add, di, List.length_append, List.length_singleton, e820MapAddress]
        have small : (24 : BitVec 16).toNat = 24 := rfl
        omega
      rw [Bootloader.e820Loop, if_neg (by simpa using clear), if_neg (not_not.mpr right),
        if_pos continued, di, bytes, List.map_cons, ← List.singleton_append, ← List.append_assoc]
      exact ih next added (by rw [List.length_append, List.length_singleton]; omega)

/-- Stores below the map leave it alone. -/
theorem Stored.store_below {image : Stage2} {mem : ℕ → Byte} {entries : List MemoryRegion}
    (stored : Stored image mem entries) (addr : ℕ) (bytes : List Byte)
    (below : addr + bytes.length ≤ e820MapAddress) : Stored image (storeBytes addr bytes mem) entries := by
  have above := image.above
  rw [e820MapAddress] at below
  constructor
  · rw [read16_storeBytes (.inr (by omega))]
    exact stored.count
  · intro i inside
    rw [readEntry_storeBytes (.inr (by rw [e820MapAddress]; omega))]
    exact stored.entry i inside

/-! ## From the BIOS to the kernel -/

/-- **The kernel finds the entries that the BIOS delivered.** -/
theorem map_mapInMemory {image : Stage2} {replies : List Reply} {entries : List BiosEntry}
    (delivers : Delivers replies entries) (room : entries.length ≤ 128) (mem : ℕ → Byte) :
    (mapInMemory (getMemoryMap image replies mem)).map E820Entry.toRegion =
      entries.map BiosEntry.region := by
  have none : Stored image (write16 image.memmapCount 0 mem) [] :=
    ⟨read16_write16 _ _ _, fun i inside => absurd inside (Nat.not_lt_zero i)⟩
  have looped := Stored.e820Loop delivers (s := ⟨0x5000, write16 image.memmapCount 0 mem⟩) rfl none
    (by rwa [List.length_nil, Nat.zero_add])
  rw [List.nil_append] at looped
  -- The two words for the kernel lie below the map.
  have address := looped.store_below 0x2000 (leBytes 4 (0x5000 : Word).toNat) (by decide)
  have linked : Stored image (getMemoryMap image replies mem) (entries.map BiosEntry.region) :=
    address.store_below 0x2004 _ (by rw [length_leBytes]; decide)
  have count : read16 (getMemoryMap image replies mem) e820MapCountPtr = _ :=
    (read16_write16 0x2004 _ _).trans address.count
  have number : (read16 (getMemoryMap image replies mem) e820MapCountPtr).toNat = entries.length := by
    rw [count, List.length_map, BitVec.toNat_ofNat]
    omega
  apply List.ext_getElem
  · rw [mapInMemory, List.length_map, List.length_map, List.length_range, number, List.length_map]
  · intro i _ inside
    simp only [mapInMemory, List.getElem_map, List.getElem_range]
    exact (linked.entry i inside).trans (List.getElem_map _)

/-- **Bootloader and kernel agree on the memory map.** Whatever the BIOS delivers, in at most
`E820_MAX_ENTRIES` entries, the table of usable regions holds the first available ones with
their full base and length. -/
theorem regions_of_replies (image : Stage2) {replies : List Reply} {entries : List BiosEntry}
    (delivers : Delivers replies entries) (room : entries.length ≤ e820MaxEntries)
    (mem : ℕ → Byte) :
    let table := parseMapInMemory (getMemoryMap image replies mem) .empty
    let available := (entries.map BiosEntry.region).filter fun region => region.type = e820TypeAvailable
    table.regions = available.take maxMemoryRegions ∧
      table.regions.length = min maxMemoryRegions available.length := by
  intro table available
  have regions : table.regions = available.take maxMemoryRegions := by
    have found : (mapInMemory (getMemoryMap image replies mem)).filter E820Entry.isAvailable =
        (mapInMemory (getMemoryMap image replies mem)).filter
          ((fun region => decide (region.type = e820TypeAvailable)) ∘ E820Entry.toRegion) := rfl
    have kept := regions_parseAndPrintE820Map (mapInMemory (getMemoryMap image replies mem))
    rw [found, List.map_take, ← List.filter_map, map_mapInMemory delivers room] at kept
    exact kept
  refine ⟨regions, ?_⟩
  rw [regions, List.length_take]

/-- A reply that delivers an entry. -/
def deliveringReply (region : MemoryRegion) (ebx : Word) : Reply where
  carry := false
  eax := smap
  ebx := ebx
  stored := BiosEntry.bytes ⟨region, none⟩
  short := by simp [BiosEntry.bytes]

def lowRegion : MemoryRegion := ⟨0, 0x9FC00, e820TypeAvailable⟩
def biosRegion : MemoryRegion := ⟨0xF0000, 0x10000, 2⟩
def highRegion : MemoryRegion := ⟨0x100000000, 0x140000000, e820TypeAvailable⟩

/-- Two available regions, one of them above 4 GiB, and a reserved one between them. -/
def sampleReplies : List Reply :=
  [deliveringReply lowRegion 1, deliveringReply biosRegion 2, deliveringReply highRegion 0]

theorem regions_of_replies_sampleReplies :
    let image : Stage2 := ⟨0x8000, by decide, by decide⟩
    (parseMapInMemory (getMemoryMap image sampleReplies fun _ => 0xFF) .empty).regions =
      [lowRegion, highRegion] := by
  intro image
  have delivers : Delivers sampleReplies [⟨lowRegion, none⟩, ⟨biosRegion, none⟩, ⟨highRegion, none⟩] :=
    .more rfl rfl rfl (by decide) (.more rfl rfl rfl (by decide) (.last rfl rfl rfl rfl))
  exact (regions_of_replies image delivers (by decide) fun _ => 0xFF).1.trans (by decide)

end KernelV.Bootloader
