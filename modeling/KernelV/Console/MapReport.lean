import KernelV.Bootloader.MapBuffer
import KernelV.Console.Reports

/-!
# The memory map on the console

`parse_and_print_e820_map` prints a line for every entry of the memory map, with base and length
as two words each, between a line with the number of entries and one with the number of regions
that were kept.

The two words make one number of sixteen digits (`hex64_halves`), and every line can be told
from what follows it. So nothing of the map is lost but the types without a name: two maps are
printed alike exactly if they agree in all bases and lengths and in the names of all types
(`mapText_eq_iff`). What the BIOS delivers to the bootloader can be read off the transcript of the
console (`biosMaps_printed_alike_iff`).
-/

set_option autoImplicit false

namespace KernelV.Console

open Library Memory Bootloader

/-! ## The code -/

/-- `region_type_to_string`. -/
def regionTypeToString (type : Word) : List Byte :=
  if type = 1 then ascii "Available"
  else if type = 2 then ascii "Reserved"
  else if type = 3 then ascii "ACPI Reclaimable"
  else if type = 4 then ascii "ACPI NVS"
  else if type = 5 then ascii "Unusable"
  else ascii "Unknown"

/-- A call that finds the names of the types in memory. -/
structure MapSite extends Site where
  typeName : Word → Word
  named : ∀ type, (text (typeName type)).bytes = regionTypeToString type
  nonNull : ∀ type, typeName type ≠ 0
  apart : ∀ type, typeName type ≠ lastPanikMsg

def headerFmt : List Byte := ascii "\n[MEMORY MAP] BIOS provided %u entries:\n" ++ [0]

def entryFmt : List Byte := ascii "[%u] Base: 0x%08x%08x, Length: 0x%08x%08x, Type: %s\n" ++ [0]

def footerFmt : List Byte := ascii "\n[MEMORY MAP] Usable memory regions count: %u\n" ++ [0]

/-- A `uint16_t`, and the stack behind it. -/
def Site.countArgs (site : Site) (count : ℕ) : VaList
  | 0 => (BitVec.ofNat 16 count).setWidth 32
  | i + 1 => site.behind i

/-- The arguments for an entry. -/
def MapSite.entryArgs (site : MapSite) (i : ℕ) (entry : E820Entry) : VaList
  | 0 => (BitVec.ofNat 16 i).setWidth 32
  | 1 => (entry.base >>> 32).setWidth 32
  | 2 => (entry.base &&& 0xFFFFFFFF).setWidth 32
  | 3 => (entry.length >>> 32).setWidth 32
  | 4 => (entry.length &&& 0xFFFFFFFF).setWidth 32
  | 5 => site.typeName entry.type
  | i + 6 => site.behind i

/-- The calls of the loop, from an index on. -/
def entryCalls (sites : ℕ → MapSite) : ℕ → List E820Entry → List ConsoleCall
  | _, [] => []
  | i, entry :: map =>
      .printk (sites (i + 1)).toSite entryFmt ((sites (i + 1)).entryArgs i entry) ::
        entryCalls sites (i + 1) map

/-- What `parse_and_print_e820_map` prints. -/
def mapCalls (sites : ℕ → MapSite) (map : List E820Entry) (table : RegionTable) : List ConsoleCall :=
  .printk (sites 0).toSite headerFmt ((sites 0).countArgs map.length) ::
    entryCalls sites 0 map ++
    [.printk (sites (map.length + 1)).toSite footerFmt
      ((sites (map.length + 1)).countArgs (parseAndPrintE820Map map table).regions.length)]

/-! ## Numbers of 64 bits -/

/-- The sixteen digits of a number of 64 bits. -/
def hex64 (n : BitVec 64) : List Byte := (numeral 16 n.toNat).leftpad 16 (chr '0')

theorem hex64_eq (n : BitVec 64) : hex64 n = fixedNumeral 16 16 n.toNat :=
  leftpad_numeral 15 (by decide) n.isLt

theorem hex64_injective {n m : BitVec 64} (same : hex64 n = hex64 m) : n = m := by
  rw [hex64_eq, hex64_eq] at same
  exact BitVec.eq_of_toNat_eq (eq_of_fixedNumeral n.isLt m.isLt same)

/-- **The two words are the digits of the number.** -/
theorem hex64_halves (n : BitVec 64) :
    (numeral 16 ((n >>> 32).setWidth 32).toNat).leftpad 8 (chr '0') ++
        (numeral 16 ((n &&& 0xFFFFFFFF).setWidth 32).toNat).leftpad 8 (chr '0') = hex64 n := by
  have bound := n.isLt
  have high : ((n >>> 32).setWidth 32).toNat = n.toNat / 16 ^ 8 := by
    rw [BitVec.toNat_setWidth, BitVec.toNat_ushiftRight, Nat.shiftRight_eq_div_pow]
    omega
  have low : ((n &&& 0xFFFFFFFF).setWidth 32).toNat = n.toNat % 16 ^ 8 := by
    have mask : (n &&& 0xFFFFFFFF).toNat = n.toNat % 2 ^ 32 := by
      rw [BitVec.toNat_and]
      exact Nat.and_two_pow_sub_one_eq_mod _ 32
    rw [BitVec.toNat_setWidth, mask]
    omega
  rw [hexWord_eq, hexWord_eq, high, low, hex64_eq, fixedNumeral_mod, ← fixedNumeral_add]

/-! ## The text -/

def headerParts : List Part :=
  [.plain (ascii "\n[MEMORY MAP] BIOS provided ") (by decide), .count,
    .plain (ascii " entries:\n") (by decide)]

def entryParts : List Part :=
  [.plain (ascii "[") (by decide), .count, .plain (ascii "] Base: 0x") (by decide), .word, .word,
    .plain (ascii ", Length: 0x") (by decide), .word, .word, .plain (ascii ", Type: ") (by decide),
    .name, .plain (ascii "\n") (by decide)]

def footerParts : List Part :=
  [.plain (ascii "\n[MEMORY MAP] Usable memory regions count: ") (by decide), .count,
    .plain (ascii "\n") (by decide)]

theorem partsFmt_headerParts : partsFmt headerParts = headerFmt := by decide

theorem partsFmt_entryParts : partsFmt entryParts = entryFmt := by decide

theorem partsFmt_footerParts : partsFmt footerParts = footerFmt := by decide

def headerText (count : ℕ) : List Byte :=
  ascii "\n[MEMORY MAP] BIOS provided " ++ (numeral 10 count ++ ascii " entries:\n")

/-- The line of a region. -/
def regionText (i : ℕ) (region : MemoryRegion) : List Byte :=
  ascii "[" ++ (numeral 10 i ++ (ascii "] Base: 0x" ++ (hex64 region.base ++ (ascii ", Length: 0x" ++
    (hex64 region.length ++ (ascii ", Type: " ++ (regionTypeToString region.type ++ ascii "\n")))))))

def footerText (count : ℕ) : List Byte :=
  ascii "\n[MEMORY MAP] Usable memory regions count: " ++ (numeral 10 count ++ ascii "\n")

/-- A memory map with the number of regions that are kept of it. -/
def mapText (regions : List MemoryRegion) (usable : ℕ) : List Byte :=
  headerText regions.length ++ (records regionText 0 regions ++ footerText usable)

theorem length_regionTypeToString_le (type : Word) : (regionTypeToString type).length ≤ 16 := by
  rw [regionTypeToString]
  repeat' split
  all_goals decide

theorem newline_not_mem_regionTypeToString (type : Word) : chr '\n' ∉ regionTypeToString type := by
  rw [regionTypeToString]
  repeat' split
  all_goals decide

theorem length_hex64 (n : BitVec 64) : (hex64 n).length = 16 := by
  rw [hex64_eq, length_fixedNumeral]

theorem length_count_le {count : ℕ} (small : count < 2 ^ 16) : (numeral 10 count).length ≤ 5 :=
  length_numeral_le (by decide) (by decide) (by omega)

/-- A `uint16_t` as an argument. -/
theorem toNat_count {count : ℕ} (small : count < 2 ^ 16) :
    ((BitVec.ofNat 16 count).setWidth 32).toNat = count := by
  rw [BitVec.toNat_setWidth, BitVec.toNat_ofNat]
  omega

section Texts

variable (site : MapSite) (message : CString)

/-- A count between two texts. -/
theorem textOf_count {count : ℕ} (small : count < 2 ^ 16) {before behind : List Byte}
    (isPlain : ∀ c ∈ before, c ≠ 0 ∧ c ≠ chr '%') (isPlain' : ∀ c ∈ behind, c ≠ 0 ∧ c ≠ chr '%')
    (short : before.length + behind.length ≤ 1000) :
    textOf (site.strings message) logBufSize
        (partsFmt [.plain before isPlain, .count, .plain behind isPlain']) (site.countArgs count) =
      before ++ (numeral 10 count ++ behind) := by
  have value : (site.countArgs count 0).toNat = count := toNat_count small
  have shown : shownAll (site.strings message) [.plain before isPlain, .count, .plain behind isPlain']
      (site.countArgs count) = before ++ (numeral 10 count ++ behind) := by
    simp only [shownAll, Part.shown, Part.nextArgs, value, List.append_nil]
  have takes : TakesAll (site.strings message)
      [.plain before isPlain, .count, .plain behind isPlain'] (site.countArgs count) :=
    ⟨trivial, value.trans_lt small, trivial, trivial⟩
  have fits : (before ++ (numeral 10 count ++ behind)).length ≤ logBufSize - 1 := by
    have digits := length_count_le small
    have room : logBufSize - 1 = 1023 := rfl
    rw [List.length_append, List.length_append, room]
    omega
  rw [textOf_partsFmt _ takes (shown.symm ▸ fits), shown]

theorem textOf_headerFmt {count : ℕ} (small : count < 2 ^ 16) :
    textOf (site.strings message) logBufSize headerFmt (site.countArgs count) = headerText count := by
  rw [← partsFmt_headerParts]
  exact textOf_count site message small _ _ (by decide)

theorem textOf_footerFmt {count : ℕ} (small : count < 2 ^ 16) :
    textOf (site.strings message) logBufSize footerFmt (site.countArgs count) = footerText count := by
  rw [← partsFmt_footerParts]
  exact textOf_count site message small _ _ (by decide)

/-- **The line of an entry.** -/
theorem textOf_entryFmt {i : ℕ} (small : i < 2 ^ 16) (entry : E820Entry) :
    textOf (site.strings message) logBufSize entryFmt (site.entryArgs i entry) =
      regionText i entry.toRegion := by
  have value : (site.entryArgs i entry 0).toNat = i := toNat_count small
  have string : (site.strings message (site.typeName entry.type)).bytes =
      regionTypeToString entry.type := by
    rw [Site.strings, Function.update_of_ne (site.apart entry.type)]
    exact site.named entry.type
  have shown : shownAll (site.strings message) entryParts (site.entryArgs i entry) =
      regionText i entry.toRegion := by
    have base := hex64_halves entry.base
    have length := hex64_halves entry.length
    simp only [entryParts, shownAll, Part.shown, Part.nextArgs, VaList.next, value, regionText,
      E820Entry.toRegion, List.append_nil, ← base, ← length, ← string, List.append_assoc]
    rfl
  have short := length_regionTypeToString_le entry.type
  have takes : TakesAll (site.strings message) entryParts (site.entryArgs i entry) := by
    refine ⟨trivial, value.trans_lt small, trivial, trivial, trivial, trivial, trivial, trivial, trivial,
      ⟨site.nonNull entry.type, ?_⟩, trivial, trivial⟩
    change (site.strings message (site.typeName entry.type)).bytes.length < 2 ^ 31
    rw [string]
    omega
  have fits : (regionText i entry.toRegion).length ≤ logBufSize - 1 := by
    have digits := length_count_le small
    have room : logBufSize - 1 = 1023 := rfl
    have literals : (ascii "[").length = 1 ∧ (ascii "] Base: 0x").length = 10 ∧
        (ascii ", Length: 0x").length = 12 ∧ (ascii ", Type: ").length = 8 ∧ (ascii "\n").length = 1 :=
      ⟨rfl, rfl, rfl, rfl, rfl⟩
    simp only [regionText, List.length_append, literals, length_hex64, E820Entry.toRegion, room]
    omega
  rw [← partsFmt_entryParts, textOf_partsFmt _ takes (shown.symm ▸ fits), shown]

end Texts

/-! ## Reading the text -/

/-- What is printed of a region. -/
def shownRegion (region : MemoryRegion) : BitVec 64 × BitVec 64 × List Byte :=
  (region.base, region.length, regionTypeToString region.type)

theorem tells_headerText : Tells headerText id := by
  have behind := (tells_count (by decide : isDigit (chr ' ') = false)).append
    (Tells.const (ascii "entries:\n") ())
  have whole := (Tells.const (ascii "\n[MEMORY MAP] BIOS provided ") ()).append behind
  have text : headerText = fun count => ascii "\n[MEMORY MAP] BIOS provided " ++
      (numeral 10 count ++ [chr ' '] ++ ascii "entries:\n") := by
    funext count
    rw [headerText, List.append_assoc]
    rfl
  rw [text]
  exact whole.map (f := fun told => told.2.1) fun _ => rfl

theorem tells_footerText : Tells footerText id :=
  ((Tells.const (ascii "\n[MEMORY MAP] Usable memory regions count: ") ()).append
    (tells_count (by decide : isDigit (chr '\n') = false))).map (f := fun told => told.2) fun _ => rfl

/-- **A line tells its region**, up to the types without a name. -/
theorem tells_regionText (i : ℕ) : Tells (regionText i) shownRegion := by
  have base : Tells (fun region : MemoryRegion => hex64 region.base) MemoryRegion.base :=
    .ofLength (fun region => length_hex64 region.base) fun _ _ same => hex64_injective same
  have length : Tells (fun region : MemoryRegion => hex64 region.length) MemoryRegion.length :=
    .ofLength (fun region => length_hex64 region.length) fun _ _ same => hex64_injective same
  have name : Tells (fun region : MemoryRegion => regionTypeToString region.type ++ ascii "\n")
      fun region => regionTypeToString region.type :=
    .separated (fun region => newline_not_mem_regionTypeToString region.type) fun _ _ same => same
  have lengthOn := length.append ((Tells.const (ascii ", Type: ") ()).append name)
  have baseOn := base.append ((Tells.const (ascii ", Length: 0x") ()).append lengthOn)
  have line := (Tells.const (ascii "[") ()).append ((Tells.const (numeral 10 i) ()).append
    ((Tells.const (ascii "] Base: 0x") ()).append baseOn))
  exact line.map (f := fun told => (told.2.2.2.1, told.2.2.2.2.2.1, told.2.2.2.2.2.2.2)) fun _ => rfl

theorem regionText_congr {i : ℕ} {region region' : MemoryRegion}
    (same : shownRegion region = shownRegion region') : regionText i region = regionText i region' := by
  obtain ⟨base, length, type⟩ : region.base = region'.base ∧ region.length = region'.length ∧
      regionTypeToString region.type = regionTypeToString region'.type := by
    simpa [shownRegion] using same
  rw [regionText, regionText, base, length, type]

theorem records_regionText_congr {regions regions' : List MemoryRegion}
    (same : regions.map shownRegion = regions'.map shownRegion) (i : ℕ) :
    records regionText i regions = records regionText i regions' := by
  induction regions generalizing regions' i with
  | nil =>
      cases regions' with
      | nil => rfl
      | cons region' regions' => cases same
  | cons region regions ih =>
      cases regions' with
      | nil => cases same
      | cons region' regions' =>
          obtain ⟨first, others⟩ := List.cons.inj same
          rw [records, records, regionText_congr first, ih others]

/-- Lines start with a bracket, and the text behind them does not. -/
theorem head?_regionText (i : ℕ) (region : MemoryRegion) (rest : List Byte) :
    (regionText i region ++ rest).head? = some (chr '[') := rfl

theorem head?_footerText_ne (usable : ℕ) : (footerText usable).head? ≠ some (chr '[') := by
  have newline : (footerText usable).head? = some (chr '\n') := rfl
  rw [newline]
  decide

/-- **Two maps have the same text exactly if they agree in all that is shown of their regions.** -/
theorem mapText_eq_iff {regions regions' : List MemoryRegion} {usable usable' : ℕ} :
    mapText regions usable = mapText regions' usable' ↔
      regions.map shownRegion = regions'.map shownRegion ∧ usable = usable' := by
  constructor
  · intro same
    obtain ⟨-, lines⟩ := tells_headerText _ _ _ _ same
    obtain ⟨shown, footers⟩ := Tells.records tells_regionText head?_regionText
      (head?_footerText_ne usable) (head?_footerText_ne usable') lines
    have counts := tells_footerText usable usable' [] [] (by rw [footers])
    exact ⟨shown, counts.1⟩
  · rintro ⟨shown, rfl⟩
    have lengths : regions.length = regions'.length := by
      simpa using congrArg List.length shown
    rw [mapText, mapText, lengths, records_regionText_congr shown]

/-! ## On the console -/

/-- The calls of the loop print the lines. -/
theorem puts_entryCalls (sites : ℕ → MapSite) {i : ℕ} {map : List E820Entry}
    (few : i + map.length ≤ 2 ^ 16) :
    ∃ texts, List.Forall₂ Puts (entryCalls sites i map) texts ∧
      texts.flatten = records regionText i (map.map E820Entry.toRegion) := by
  induction map generalizing i with
  | nil => exact ⟨[], .nil, rfl⟩
  | cons entry map ih =>
      rw [List.length_cons] at few
      obtain ⟨texts, puts, lines⟩ := ih (i := i + 1) (by omega)
      have line := puts_printk (by decide : isLeveled entryFmt = false)
        fun message => textOf_entryFmt (sites (i + 1)) message (by omega : i < 2 ^ 16) entry
      exact ⟨_ :: texts, .cons line puts, by rw [List.flatten_cons, lines]; rfl⟩

/-- How many regions of a map are kept. -/
def usableCount (map : List E820Entry) : ℕ := (parseAndPrintE820Map map .empty).regions.length

/-- **`parse_and_print_e820_map` prints the text of the map.** -/
theorem logged_mapCalls (sites : ℕ → MapSite) {map : List E820Entry} (few : map.length < 2 ^ 16)
    {t : Transcript} {s : Reporter} (follows : Follows t s) :
    ∃ last s', (mapCalls sites map .empty).foldlM Reporter.perform s = .ok s' ∧
      (mapCalls sites map .empty).foldlM Transcript.perform t = .ok last ∧ Follows last s' ∧
      last.output.logged =
        t.output.logged ++ mapText (map.map E820Entry.toRegion) (usableCount map) := by
  have bounded := (parseAndPrintE820Map map .empty).bounded
  have capacity : maxMemoryRegions = 32 := rfl
  obtain ⟨lines, entries, flat⟩ := puts_entryCalls sites (by omega : 0 + map.length ≤ 2 ^ 16)
  have header := puts_printk (by decide : isLeveled headerFmt = false)
    fun message => textOf_headerFmt (sites 0) message few
  have footer := puts_printk (by decide : isLeveled footerFmt = false)
    fun message => textOf_footerFmt (sites (map.length + 1)) message
      (by omega : (parseAndPrintE820Map map .empty).regions.length < 2 ^ 16)
  have puts : List.Forall₂ Puts (mapCalls sites map .empty)
      (headerText map.length :: lines ++ [footerText (usableCount map)]) :=
    .cons header (List.rel_append entries (.cons footer .nil))
  obtain ⟨last, s', ran, told, related, logged⟩ := follows.logged_reported puts
  refine ⟨last, s', ran, told, related, ?_⟩
  rw [logged, mapText, List.length_map, List.flatten_append, List.flatten_cons, flat,
    List.flatten_singleton, List.append_assoc]

/-! ## What the BIOS delivers -/

/-- The names of the types tell the available regions. -/
theorem usableCount_eq (map : List E820Entry) :
    usableCount map = min maxMemoryRegions
      (((map.map E820Entry.toRegion).map shownRegion).countP fun shown =>
        shown.2.2 = ascii "Available") := by
  have named (type : Word) : regionTypeToString type = ascii "Available" ↔ type = e820TypeAvailable := by
    constructor
    · intro name
      by_contra other
      have notOne : ¬ type = 1 := other
      rw [regionTypeToString, if_neg notOne] at name
      revert name
      repeat' split
      all_goals decide
    · rintro rfl
      rfl
  have available : (fun shown => decide (shown.2.2 = ascii "Available")) ∘ shownRegion ∘
      E820Entry.toRegion = E820Entry.isAvailable := by
    funext entry
    simp [shownRegion, E820Entry.toRegion, named, E820Entry.isAvailable, beq_eq_decide]
  rw [usableCount, regions_parseAndPrintE820Map, List.length_map, List.length_take,
    ← List.countP_eq_length_filter, List.map_map, List.countP_map, available]

theorem length_mapInMemory_lt (mem : ℕ → Byte) : (mapInMemory mem).length < 2 ^ 16 := by
  rw [mapInMemory, List.length_map, List.length_range]
  exact BitVec.isLt _

section Bios

variable (image image' : Stage2) {replies replies' : List Reply} {entries entries' : List BiosEntry}

/-- **What the BIOS delivers can be read off the console.** From any state of the console and its
transcript the kernel prints the maps of two BIOSes to the end, in step with the transcript, and the
two transcripts log the same bytes exactly if the maps agree in all bases and lengths and in the
names of all types. -/
theorem biosMaps_printed_alike_iff (delivers : Delivers replies entries)
    (delivers' : Delivers replies' entries') (room : entries.length ≤ e820MaxEntries)
    (room' : entries'.length ≤ e820MaxEntries) (mem mem' : ℕ → Byte) (sites sites' : ℕ → MapSite)
    {t : Transcript} {s : Reporter} (follows : Follows t s) :
    ∃ last last' s₁ s₂,
      (mapCalls sites (mapInMemory (getMemoryMap image replies mem)) .empty).foldlM Reporter.perform s =
          .ok s₁ ∧
      (mapCalls sites (mapInMemory (getMemoryMap image replies mem)) .empty).foldlM
          Transcript.perform t = .ok last ∧ Follows last s₁ ∧
      (mapCalls sites' (mapInMemory (getMemoryMap image' replies' mem')) .empty).foldlM
          Reporter.perform s = .ok s₂ ∧
      (mapCalls sites' (mapInMemory (getMemoryMap image' replies' mem')) .empty).foldlM
          Transcript.perform t = .ok last' ∧ Follows last' s₂ ∧
      (last.output.logged = last'.output.logged ↔
        entries.map (fun entry => shownRegion entry.region) =
          entries'.map fun entry => shownRegion entry.region) := by
  have found : (mapInMemory (getMemoryMap image replies mem)).map E820Entry.toRegion = _ :=
    map_mapInMemory delivers room mem
  have found' : (mapInMemory (getMemoryMap image' replies' mem')).map E820Entry.toRegion = _ :=
    map_mapInMemory delivers' room' mem'
  obtain ⟨last, s₁, ran, told, related, logged⟩ :=
    logged_mapCalls sites (length_mapInMemory_lt (getMemoryMap image replies mem)) follows
  obtain ⟨last', s₂, ran', told', related', logged'⟩ :=
    logged_mapCalls sites' (length_mapInMemory_lt (getMemoryMap image' replies' mem')) follows
  refine ⟨last, last', s₁, s₂, ran, told, related, ran', told', related', ?_⟩
  rw [logged, logged', List.append_right_inj, mapText_eq_iff, usableCount_eq, usableCount_eq, found,
    found', List.map_map, List.map_map]
  constructor
  · intro same
    exact same.1
  · intro same
    exact ⟨same, congrArg _ (congrArg (List.countP _) same)⟩

end Bios

theorem zero_not_mem_regionTypeToString (type : Word) : 0 ∉ regionTypeToString type := by
  rw [regionTypeToString]
  repeat' split
  all_goals decide

/-- Names at the addresses 1 to 6. -/
def sampleMapSite : MapSite where
  text ptr := ⟨regionTypeToString ptr, zero_not_mem_regionTypeToString ptr⟩
  tmp _ := 0
  lastPanikMsg := 7
  placed := by decide
  behind _ := 0
  typeName type := if 1 ≤ type ∧ type ≤ 5 then type else 6
  named type := by
    by_cases known : 1 ≤ type ∧ type ≤ 5
    · rw [if_pos known]
    · have other (number : Word) (inside : 1 ≤ number ∧ number ≤ 5) : type ≠ number := by
        rintro rfl
        exact known inside
      have unknown : regionTypeToString type = ascii "Unknown" := by
        rw [regionTypeToString, if_neg (other 1 (by decide)), if_neg (other 2 (by decide)),
          if_neg (other 3 (by decide)), if_neg (other 4 (by decide)), if_neg (other 5 (by decide))]
      rw [if_neg known, unknown]
      rfl
  nonNull type := by
    split
    case isTrue known =>
        rintro rfl
        exact absurd known (by decide)
    case isFalse => decide
  apart type := by
    split
    case isTrue known =>
        rintro rfl
        exact absurd known (by decide)
    case isFalse => decide

/-- A page of a type without a name. -/
def namelessReply (type : Word) : Reply := deliveringReply ⟨0, 0x1000, type⟩ 0

theorem delivers_namelessReply (type : Word) :
    Delivers [namelessReply type] [⟨⟨0, 0x1000, type⟩, none⟩] :=
  .last rfl rfl rfl rfl

/-- What the kernel prints of such a page. -/
def namelessCalls (type : Word) : List ConsoleCall :=
  mapCalls (fun _ => sampleMapSite)
    (mapInMemory (getMemoryMap Bootloader.sampleImage [namelessReply type] fun _ => 0)) .empty

/-- Types 6 and 7 are printed alike. -/
theorem biosMaps_printed_alike_nameless :
    ∃ last last', (namelessCalls 6).foldlM Transcript.perform .start = .ok last ∧
      (namelessCalls 7).foldlM Transcript.perform .start = .ok last' ∧
      last.output.logged = last'.output.logged := by
  obtain ⟨last, last', -, -, -, told, -, -, told', -, alike⟩ :=
    biosMaps_printed_alike_iff _ _ (delivers_namelessReply 6) (delivers_namelessReply 7) (by decide)
      (by decide) (fun _ => 0) (fun _ => 0) (fun _ => sampleMapSite) (fun _ => sampleMapSite)
      (follows_boot (fun _ => 0) (fun _ => 0) ⟨0, fun _ => 0⟩)
  exact ⟨last, last', told, told', alike.mpr rfl⟩

end KernelV.Console
