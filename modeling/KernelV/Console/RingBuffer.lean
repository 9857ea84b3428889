import KernelV.Console.Vga
import KernelV.Library.CyclicBuffer

/-!
# The log of the kernel

All messages go into a cyclic buffer of `LOG_BUF_SIZE` bytes. The buffer is never full in
the sense of the array: when the head would meet the tail, the tail moves on and the oldest
byte is lost.

`log_of_writes`: whatever is written after `printk_init`, in pieces of any length, the log is
the last `LOG_BUF_SIZE - 1` bytes of it.
-/

set_option autoImplicit false

namespace KernelV.Console

open Library Memory

abbrev logBufSize : ℕ := 1024

/-- The variables of `printk.c`, and the console below. -/
structure Logger where
  logBuffer : ℕ → Byte
  /-- The next byte to be written. -/
  rbHead : ℕ
  /-- The oldest byte. -/
  rbTail : ℕ
  vga : Vga

/-- `ringbuf_putc`. -/
def ringbufPutc (ch : Byte) (s : Logger) : Logger :=
  let s := { s with logBuffer := Function.update s.logBuffer s.rbHead ch }
  let s := { s with rbHead := (s.rbHead + 1) % logBufSize }
  if s.rbHead = s.rbTail then { s with rbTail := (s.rbTail + 1) % logBufSize } else s

/-- `ringbuf_write`. -/
def ringbufWrite (str : ℕ → Byte) (strLen : ℕ) (s : Logger) : Logger :=
  (List.range strLen).foldl (fun s i => ringbufPutc (str i) s) s

/-- `printk_init`. -/
def printkInit (s : Logger) : Logger := { s with rbHead := 0, rbTail := 0, vga := vgaInit s.vga }

/-- The log as a cyclic buffer. -/
def Logger.ring (s : Logger) : CyclicBuffer Byte := ⟨s.logBuffer, s.rbHead, s.rbTail⟩

/-- The bytes of the log, read from the tail up to the head. -/
def Logger.log (s : Logger) : List Byte := s.ring.contents logBufSize

/-- The first bytes of a memory. -/
def bytesOf (str : ℕ → Byte) (strLen : ℕ) : List Byte := (List.range strLen).map str

theorem ring_ringbufPutc (ch : Byte) (s : Logger) :
    (ringbufPutc ch s).ring = s.ring.push logBufSize ch := by
  by_cases meets : (s.rbHead + 1) % logBufSize = s.rbTail
  · simp [ringbufPutc, CyclicBuffer.push, Logger.ring, meets]
  · simp [ringbufPutc, CyclicBuffer.push, Logger.ring, meets]

@[simp] theorem vga_ringbufPutc (ch : Byte) (s : Logger) : (ringbufPutc ch s).vga = s.vga := by
  unfold ringbufPutc
  dsimp only
  split
  case isTrue => rfl
  case isFalse => rfl

/-- `ringbuf_write` pushes the bytes it is given, one after the other. -/
theorem ring_ringbufWrite (str : ℕ → Byte) (strLen : ℕ) (s : Logger) :
    (ringbufWrite str strLen s).ring = s.ring.pushAll logBufSize (bytesOf str strLen) := by
  rw [ringbufWrite, bytesOf, CyclicBuffer.pushAll, List.foldl_map]
  induction List.range strLen generalizing s with
  | nil => rfl
  | cons i rest ih => rw [List.foldl_cons, List.foldl_cons, ih, ring_ringbufPutc]

@[simp] theorem vga_ringbufWrite (str : ℕ → Byte) (strLen : ℕ) (s : Logger) :
    (ringbufWrite str strLen s).vga = s.vga := by
  rw [ringbufWrite]
  induction List.range strLen generalizing s with
  | nil => rfl
  | cons i rest ih => rw [List.foldl_cons, ih, vga_ringbufPutc]

/-- Several writes push all their bytes. -/
theorem ring_writes (writes : List ((ℕ → Byte) × ℕ)) (s : Logger) :
    (writes.foldl (fun s call => ringbufWrite call.1 call.2 s) s).ring =
      s.ring.pushAll logBufSize (writes.flatMap fun call => bytesOf call.1 call.2) := by
  induction writes generalizing s with
  | nil => rfl
  | cons call writes ih =>
      rw [List.foldl_cons, ih, ring_ringbufWrite, List.flatMap_cons, CyclicBuffer.pushAll_append]

/-- **The log holds exactly the most recent bytes.** -/
theorem log_of_writes (s : Logger) (writes : List ((ℕ → Byte) × ℕ)) :
    let t := writes.foldl (fun s call => ringbufWrite call.1 call.2 s) (printkInit s)
    let written := writes.flatMap fun call => bytesOf call.1 call.2
    t.log = written.rtake (min written.length (logBufSize - 1)) ∧
      t.rbHead < logBufSize ∧ t.rbTail < logBufSize := by
  intro t written
  have initial : (printkInit s).ring.Bounded logBufSize :=
    ⟨Nat.zero_lt_succ 1023, Nat.zero_lt_succ 1023⟩
  have empty : (printkInit s).ring.contents logBufSize = [] := by
    simp [CyclicBuffer.contents, CyclicBuffer.length, readCyclic, Logger.ring, printkInit]
  have pushed : t.ring = (printkInit s).ring.pushAll logBufSize written :=
    ring_writes writes (printkInit s)
  have bounded : t.ring.Bounded logBufSize := by
    rw [pushed]
    exact initial.pushAll written
  refine ⟨?_, bounded.head, bounded.tail⟩
  have last : written.length - min written.length (logBufSize - 1) =
      written.length - (logBufSize - 1) := by omega
  rw [Logger.log, pushed, CyclicBuffer.contents_pushAll initial, empty, List.nil_append, List.rtake,
    List.rtake, last]

end KernelV.Console
