import Mathlib.Data.List.Basic

/-!
# The BIOS memory map

The bootloader leaves the list of E820 entries in low memory. The kernel keeps
the entries of the available type in a table of at most `maxMemoryRegions`
regions, in the order of the map; entries past the capacity are dropped
(`regions_parseAndPrintE820Map`).

The printing of the map has no effect on the table and is left to the console.
-/

set_option autoImplicit false

namespace KernelV.Memory

/-- An unsigned 32-bit word, `uint32_t`. -/
abbrev Word := BitVec 32

/-- A byte, `uint8_t` or `char`. -/
abbrev Byte := BitVec 8

/-- An entry of the map, without the last four bytes that nothing reads. -/
structure E820Entry where
  base : BitVec 64
  length : BitVec 64
  type : Word
  deriving DecidableEq, Repr

def e820TypeAvailable : Word := 1

/-- A usable memory region. -/
structure MemoryRegion where
  base : BitVec 64
  length : BitVec 64
  type : Word
  deriving DecidableEq, Repr

def maxMemoryRegions : ℕ := 32

/-- The array of usable regions with its count: never more regions than the
array has room for. -/
structure RegionTable where
  regions : List MemoryRegion
  bounded : regions.length ≤ maxMemoryRegions
  deriving DecidableEq

namespace RegionTable

/-- The table at load time. -/
def empty : RegionTable := ⟨[], Nat.zero_le _⟩

end RegionTable

namespace E820Entry

def isAvailable (entry : E820Entry) : Bool := entry.type == e820TypeAvailable

def toRegion (entry : E820Entry) : MemoryRegion :=
  { base := entry.base, length := entry.length, type := entry.type }

end E820Entry

/-- One pass of the loop of `parse_and_print_e820_map`. -/
def parseEntry (table : RegionTable) (entry : E820Entry) : RegionTable :=
  if room : entry.isAvailable ∧ table.regions.length < maxMemoryRegions then
    { regions := table.regions ++ [entry.toRegion]
      bounded := by
        rw [List.length_append, List.length_singleton]
        exact room.2 }
  else table

/-- `parse_and_print_e820_map`, on the entries of the map. -/
def parseAndPrintE820Map (map : List E820Entry) (table : RegionTable) : RegionTable :=
  map.foldl parseEntry table

/-- The regions the map adds to a table, as far as the table has room. -/
theorem regions_parseAndPrintE820Map_append (map : List E820Entry) (table : RegionTable) :
    (parseAndPrintE820Map map table).regions =
      table.regions ++ ((map.filter E820Entry.isAvailable).take
        (maxMemoryRegions - table.regions.length)).map E820Entry.toRegion := by
  induction map generalizing table with
  | nil => simp [parseAndPrintE820Map]
  | cons entry map ih =>
      rw [parseAndPrintE820Map, List.foldl_cons, ← parseAndPrintE820Map, ih, parseEntry]
      by_cases available : entry.isAvailable
      · by_cases room : table.regions.length < maxMemoryRegions
        · have left : maxMemoryRegions - table.regions.length =
              maxMemoryRegions - (table.regions.length + 1) + 1 := by omega
          simp [available, room, left]
        · have full : maxMemoryRegions - table.regions.length = 0 := by omega
          simp [available, room, full]
      · simp [available]

/-- **The table holds the first available entries of the map, in its order.** -/
theorem regions_parseAndPrintE820Map (map : List E820Entry) :
    (parseAndPrintE820Map map .empty).regions =
      ((map.filter E820Entry.isAvailable).take maxMemoryRegions).map E820Entry.toRegion := by
  simp [regions_parseAndPrintE820Map_append, RegionTable.empty]

end KernelV.Memory
