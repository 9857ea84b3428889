import KernelV.Bootloader.Stage2

/-!
# The buffer of the memory map

The memory map has room for `E820_MAX_ENTRIES` entries of 24 bytes from `0x5000` on. Above it
lie the stack of the first stage and the code of both stages. The loop that asks the BIOS for the
entries does not look at the room. It ends when the BIOS says so, and moves the destination on by
24 bytes for every entry.

What the BIOS stores in the course of the loop is read off the memory: a byte is overwritten if
some content of it does not survive. The count of the entries is the one thing that the loop
itself stores.

The loop stays inside the buffer exactly when the 129th reply, if the BIOS is asked for one, fails
and stores nothing (`staysInBuffer_iff`).
-/

set_option autoImplicit false

namespace KernelV.Bootloader

open Library Memory

/-! ## The passes of the loop -/

namespace Reply

/-- The reply passes both tests of the loop. -/
def Accepted (reply : Reply) : Prop := reply.carry = false ∧ reply.eax = smap

/-- The loop goes round again. -/
def Continues (reply : Reply) : Prop := reply.Accepted ∧ reply.ebx ≠ 0

instance (reply : Reply) : Decidable reply.Accepted := inferInstanceAs (Decidable (_ ∧ _))

instance (reply : Reply) : Decidable reply.Continues := inferInstanceAs (Decidable (_ ∧ _))

end Reply

/-- How many entries the loop takes. -/
def entriesStored : List Reply → ℕ
  | [] => 0
  | reply :: replies =>
      if reply.Continues then entriesStored replies + 1
      else if reply.Accepted then 1
      else 0

namespace RealMode

/-- What the BIOS stores. -/
def store (reply : Reply) (s : RealMode) : RealMode :=
  { s with mem := storeBytes s.di.toNat reply.stored s.mem }

/-- A pass of the loop that takes an entry. -/
def take (image : Stage2) (reply : Reply) (s : RealMode) : RealMode where
  di := s.di + 24
  mem :=
    write16 image.memmapCount (read16 (s.store reply).mem image.memmapCount + 1) (s.store reply).mem

/-- Passes that take the entries of some replies. -/
def takeAll (image : Stage2) (replies : List Reply) (s : RealMode) : RealMode :=
  replies.foldl (fun s reply => s.take image reply) s

end RealMode

section Passes

variable {image : Stage2} {reply : Reply} {replies : List Reply} {s : RealMode}

theorem e820Loop_of_continues (continues : reply.Continues) :
    e820Loop image (reply :: replies) s = e820Loop image replies (s.take image reply) := by
  obtain ⟨⟨clear, right⟩, more⟩ := continues
  rw [e820Loop, if_neg (by simpa using clear), if_neg (not_not.mpr right), if_pos more]
  rfl

theorem e820Loop_of_final (accepted : reply.Accepted) (final : ¬ reply.Continues) :
    e820Loop image (reply :: replies) s = s.take image reply := by
  have zero : ¬ reply.ebx ≠ 0 := fun more => final ⟨accepted, more⟩
  rw [e820Loop, if_neg (by simpa using accepted.1), if_neg (not_not.mpr accepted.2), if_neg zero]
  rfl

theorem e820Loop_of_rejected (rejected : ¬ reply.Accepted) :
    e820Loop image (reply :: replies) s = s.store reply := by
  rw [e820Loop]
  split
  · rfl
  · rename_i clear
    have wrong : reply.eax ≠ smap := fun right => rejected ⟨by simpa using clear, right⟩
    rw [if_pos wrong]
    rfl

/-- Passes that go round, before the others. -/
theorem entriesStored_append {front : List Reply} (all : ∀ reply ∈ front, reply.Continues) :
    entriesStored (front ++ replies) = front.length + entriesStored replies := by
  induction front with
  | nil => exact (Nat.zero_add _).symm
  | cons reply front ih =>
      obtain ⟨first, rest⟩ := List.forall_mem_cons.mp all
      rw [List.cons_append, entriesStored, if_pos first, ih rest, List.length_cons]
      omega

theorem entriesStored_pos (accepted : reply.Accepted) : 0 < entriesStored (reply :: replies) := by
  rw [entriesStored, if_pos accepted]
  split
  · exact Nat.succ_pos _
  · exact Nat.one_pos

theorem e820Loop_append {front : List Reply} (all : ∀ reply ∈ front, reply.Continues) :
    e820Loop image (front ++ replies) s =
      e820Loop image replies (s.takeAll image front) := by
  induction front generalizing s with
  | nil => rfl
  | cons reply front ih =>
      obtain ⟨first, rest⟩ := List.forall_mem_cons.mp all
      rw [List.cons_append, e820Loop_of_continues first, ih rest]
      rfl

theorem di_takeAll (front : List Reply) (s : RealMode) :
    (s.takeAll image front).di = s.di + BitVec.ofNat 16 (24 * front.length) := by
  induction front generalizing s with
  | nil => exact (BitVec.add_zero s.di).symm
  | cons reply front ih =>
      rw [RealMode.takeAll, List.foldl_cons, ← RealMode.takeAll, ih, List.length_cons, Nat.mul_succ,
        Nat.add_comm, BitVec.ofNat_add, ← BitVec.add_assoc]
      rfl

end Passes

/-! ## What is overwritten -/

/-- The two bytes of `memmap_count`, which the loop keeps itself. -/
def Stage2.IsCount (image : Stage2) (addr : ℕ) : Prop :=
  image.memmapCount ≤ addr ∧ addr < image.memmapCount + 2

/-- The replies to the loop overwrite a byte: they change some content of it. -/
def Overwrites (image : Stage2) (replies : List Reply) (addr : ℕ) : Prop :=
  ¬ image.IsCount addr ∧ ∃ mem, (e820Loop image replies ⟨0x5000, mem⟩).mem addr ≠ mem addr

/-- The end of the buffer for the map. -/
def mapBufferEnd : ℕ := e820MapAddress + e820MaxEntries * 24

/-- The loop stores no more entries than there is room for, and no byte outside the buffer. -/
structure StaysInBuffer (image : Stage2) (replies : List Reply) : Prop where
  entries : entriesStored replies ≤ e820MaxEntries
  bytes : ∀ addr, Overwrites image replies addr → e820MapAddress ≤ addr ∧ addr < mapBufferEnd
  /-- The code of the two stages, from `0x7c00` on. -/
  code : ∀ addr, 0x7c00 ≤ addr → ¬ Overwrites image replies addr

section Outside

variable {image : Stage2} {addr : ℕ}

theorem mem_store_of_outside {s : RealMode} (outside : addr < s.di.toNat ∨ s.di.toNat + 24 ≤ addr)
    (reply : Reply) : (s.store reply).mem addr = s.mem addr := by
  have short := reply.short
  rcases outside with below | above
  · exact storeBytes_of_lt below _ _
  · exact storeBytes_of_le (by omega) _

theorem mem_take_of_notCount {s : RealMode} {reply : Reply} (notCount : ¬ image.IsCount addr) :
    (s.take image reply).mem addr = (s.store reply).mem addr := by
  rw [Stage2.IsCount] at notCount
  by_cases below : addr < image.memmapCount
  · exact storeBytes_of_lt below _ _
  · exact storeBytes_of_le (by rw [length_leBytes]; omega) _

theorem mem_take_of_outside {s : RealMode} (outside : addr < s.di.toNat ∨ s.di.toNat + 24 ≤ addr)
    (notCount : ¬ image.IsCount addr) (reply : Reply) :
    (s.take image reply).mem addr = s.mem addr :=
  (mem_take_of_notCount notCount).trans (mem_store_of_outside outside reply)

/-- The reply for which there is no room left, if the BIOS is asked for it, fails and stores
nothing. -/
def EndsInTime (room : ℕ) (replies : List Reply) : Prop :=
  ∀ reply, replies[room]? = some reply → (∀ earlier ∈ replies.take room, earlier.Continues) →
    ¬ reply.Accepted ∧ reply.stored = []

theorem EndsInTime.tail {room : ℕ} {reply : Reply} {replies : List Reply}
    (ends : EndsInTime (room + 1) (reply :: replies)) (continues : reply.Continues) :
    EndsInTime room replies := by
  intro late listed all
  refine ends late listed fun earlier member => ?_
  rw [List.take_succ_cons] at member
  rcases List.mem_cons.mp member with rfl | member
  · exact continues
  · exact all earlier member

theorem EndsInTime.entriesStored_le {room : ℕ} {replies : List Reply}
    (ends : EndsInTime room replies) :
    entriesStored replies ≤ room := by
  induction replies generalizing room with
  | nil => exact Nat.zero_le room
  | cons reply replies ih =>
      cases room with
      | zero =>
          have rejected := (ends reply rfl fun _ member => absurd member List.not_mem_nil).1
          have stops : ¬ reply.Continues := fun continues => rejected continues.1
          exact Nat.le_of_eq ((if_neg stops).trans (if_neg rejected))
      | succ room =>
          rw [entriesStored]
          split
          · rename_i continues
            exact Nat.succ_le_succ (ih (ends.tail continues))
          · split <;> omega

/-- **Outside the room that is left the loop changes no byte but its count.** -/
theorem EndsInTime.mem_e820Loop {room : ℕ} {replies : List Reply} (ends : EndsInTime room replies)
    {s : RealMode} (fits : s.di.toNat + 24 * room + 24 < 2 ^ 16)
    (outside : addr < s.di.toNat ∨ s.di.toNat + 24 * room ≤ addr)
    (notCount : ¬ image.IsCount addr) :
    (e820Loop image replies s).mem addr = s.mem addr := by
  induction replies generalizing room s with
  | nil => rfl
  | cons reply replies ih =>
      cases room with
      | zero =>
          obtain ⟨rejected, nothing⟩ :=
            ends reply rfl fun _ member => absurd member List.not_mem_nil
          rw [e820Loop_of_rejected rejected, RealMode.store, nothing]
          rfl
      | succ room =>
          have slot : addr < s.di.toNat ∨ s.di.toNat + 24 ≤ addr := by omega
          by_cases continues : reply.Continues
          · have next : (s.take image reply).di.toNat = s.di.toNat + 24 := by
              have small : (24 : BitVec 16).toNat = 24 := rfl
              rw [RealMode.take, BitVec.toNat_add, small]
              omega
            rw [e820Loop_of_continues continues,
              ih (ends.tail continues) (by omega) (by omega), mem_take_of_outside slot notCount]
          · by_cases accepted : reply.Accepted
            · rw [e820Loop_of_final accepted continues, mem_take_of_outside slot notCount]
            · rw [e820Loop_of_rejected accepted, mem_store_of_outside slot]

end Outside

section Inside

variable {image : Stage2} {front : List Reply}

/-- Where a reply is stored, behind those before it. -/
theorem toNat_di_takeAll (fits : e820MapAddress + 24 * front.length < 2 ^ 16) (mem : ℕ → Byte) :
    (RealMode.takeAll image front ⟨0x5000, mem⟩).di.toNat = e820MapAddress + 24 * front.length := by
  have start : (0x5000 : BitVec 16).toNat = e820MapAddress := rfl
  rw [di_takeAll, BitVec.toNat_add, BitVec.toNat_ofNat, start]
  omega

variable (all : ∀ reply ∈ front, reply.Continues)
include all

/-- **The reply that ends the loop is stored behind all entries**, whether there is room or
not. -/
theorem overwrites_of_stops {reply : Reply} (stops : ¬ reply.Continues)
    (something : reply.stored ≠ []) (rest : List Reply) (fits : e820MapAddress + 24 * front.length < 2 ^ 16)
    (notCount : ¬ image.IsCount (e820MapAddress + 24 * front.length)) :
    Overwrites image (front ++ reply :: rest) (e820MapAddress + 24 * front.length) := by
  obtain ⟨byte, bytes, stored⟩ := List.exists_cons_of_ne_nil something
  refine ⟨notCount, fun _ => byte + 1, ?_⟩
  have place := @toNat_di_takeAll image front fits fun _ => byte + 1
  rw [e820Loop_append all]
  generalize RealMode.takeAll image front ⟨0x5000, fun _ => byte + 1⟩ = s at place ⊢
  have written : (s.store reply).mem (e820MapAddress + 24 * front.length) = byte := by
    rw [RealMode.store, place, stored]
    exact @storeBytes_inside _ _ (byte :: bytes) 0 (Nat.succ_pos _) _
  have final :
      (e820Loop image (reply :: rest) s).mem (e820MapAddress + 24 * front.length) = byte := by
    by_cases accepted : reply.Accepted
    · rw [e820Loop_of_final accepted stops, mem_take_of_notCount notCount, written]
    · rw [e820Loop_of_rejected accepted, written]
  rw [final]
  have different : byte ≠ byte + 1 := by bv_omega
  exact different

end Inside

section Buffer

variable {image : Stage2} {replies : List Reply}

/-- A loop that stays inside the buffer has been told that no entry comes after the last place. -/
theorem StaysInBuffer.endsInTime (stays : StaysInBuffer image replies) :
    EndsInTime e820MaxEntries replies := by
  intro late listed all
  obtain ⟨within, rfl⟩ := List.getElem?_eq_some_iff.mp listed
  have split : replies.take e820MaxEntries ++
      replies[e820MaxEntries] :: replies.drop (e820MaxEntries + 1) = replies := by
    rw [← List.drop_eq_getElem_cons within, List.take_append_drop]
  have length : (replies.take e820MaxEntries).length = e820MaxEntries :=
    List.length_take_of_le (Nat.le_of_lt within)
  have rejected : ¬ replies[e820MaxEntries].Accepted := by
    intro accepted
    have entries := stays.entries
    rw [← split, entriesStored_append all, length] at entries
    exact absurd entries (Nat.not_le_of_lt (Nat.lt_add_of_pos_right (entriesStored_pos accepted)))
  refine ⟨rejected, ?_⟩
  by_contra something
  have notCount : ¬ image.IsCount (e820MapAddress + 24 * (replies.take e820MaxEntries).length) := by
    have above := image.above
    rw [length, Stage2.IsCount, e820MapAddress, e820MaxEntries]
    omega
  have outside := overwrites_of_stops all (fun continues => rejected continues.1) something
    (replies.drop (e820MaxEntries + 1)) (by rw [length]; decide) notCount
  rw [split, length] at outside
  exact absurd (stays.bytes _ outside).2 (by decide)

/-- A loop that is told in time stays inside the buffer, which ends below the code. -/
theorem EndsInTime.staysInBuffer (ends : EndsInTime e820MaxEntries replies) :
    StaysInBuffer image replies := by
  have fits : e820MapAddress + 24 * e820MaxEntries + 24 < 2 ^ 16 := by decide
  have bytes (addr : ℕ) (overwritten : Overwrites image replies addr) :
      e820MapAddress ≤ addr ∧ addr < mapBufferEnd := by
    obtain ⟨notCount, mem, changed⟩ := overwritten
    by_contra outside
    have apart : addr < e820MapAddress ∨ e820MapAddress + 24 * e820MaxEntries ≤ addr := by
      have bound : mapBufferEnd = e820MapAddress + 24 * e820MaxEntries := rfl
      omega
    exact changed (ends.mem_e820Loop fits apart notCount)
  refine ⟨ends.entriesStored_le, bytes, fun addr code overwritten => ?_⟩
  have buffer : mapBufferEnd < 0x7c00 := by decide
  have below : addr < 0x7c00 := Nat.lt_trans (bytes addr overwritten).2 buffer
  exact absurd below (Nat.not_lt_of_le code)

end Buffer

/-- **The loop stays inside the buffer exactly when the 129th reply, if the BIOS is asked for it,
fails and stores nothing.** -/
theorem staysInBuffer_iff (image : Stage2) (replies : List Reply) :
    StaysInBuffer image replies ↔ EndsInTime e820MaxEntries replies :=
  ⟨StaysInBuffer.endsInTime, EndsInTime.staysInBuffer⟩

/-- The second stage with its counter at `0x8000`. -/
def sampleImage : Stage2 := ⟨0x8000, by decide, by decide⟩

/-- A number of entries, and a last one. -/
def manyReplies (count : ℕ) : List Reply :=
  List.replicate count (deliveringReply lowRegion 1) ++ [deliveringReply lowRegion 0]

/-- The entry after 128 others is stored behind the buffer, and the entry after 470 others over the
code of the first stage. -/
theorem not_staysInBuffer_manyReplies :
    ¬ StaysInBuffer sampleImage (manyReplies 128) ∧
      Overwrites sampleImage (manyReplies 128) 0x5C00 ∧
      Overwrites sampleImage (manyReplies 470) 0x7C10 := by
  have more : (deliveringReply lowRegion 1).Continues := by decide
  have all (count : ℕ) :
      ∀ reply ∈ List.replicate count (deliveringReply lowRegion 1), reply.Continues := by
    intro reply member
    rwa [List.eq_of_mem_replicate member]
  have last (count : ℕ) (fits : e820MapAddress + 24 * count < 0x8000) :
      Overwrites sampleImage (manyReplies count) (e820MapAddress + 24 * count) := by
    have length : (List.replicate count (deliveringReply lowRegion 1)).length = count :=
      List.length_replicate
    have notCount : ¬ sampleImage.IsCount (e820MapAddress + 24 * count) :=
      fun inside => absurd inside.1 (Nat.not_le_of_lt fits)
    have stops : ¬ (deliveringReply lowRegion 0).Continues := by decide
    have something : (deliveringReply lowRegion 0).stored ≠ [] := by decide
    have stored := @overwrites_of_stops sampleImage _ (all count) _ stops something []
    rw [length] at stored
    exact stored (by omega) notCount
  have behind : Overwrites sampleImage (manyReplies 128) 0x5C00 := last 128 (by decide)
  refine ⟨fun stays => ?_, behind, last 470 (by decide)⟩
  exact absurd (stays.bytes _ behind).2 (by decide)

end KernelV.Bootloader
