import KernelV.Library.Alignment
import KernelV.Library.CountedLoop
import KernelV.Memory.MemoryMap
import Mathlib.Algebra.Order.Ring.Int

/-!
# The VGA text console

The driver keeps a cursor in two variables, writes characters and colours into the screen
memory and sends the place of the cursor to the CRT controller. The three are updated one
after the other, and `vga_print_string` lets the cursor leave the screen before it wraps and
scrolls.

* Clearing and scrolling go through the screen cell by cell; `clearCells_paints` and
  `vgaScrollUp_paints` say what they leave behind.
* In every run of the public operations the cursor is on the screen, all stores are inside
  the screen, and the controller has the place of the cursor (`valid_of_operations`).

The state records two things that the hardware shows but does not keep: the offsets of all
stores to the screen memory, and the characters that `vga_print_string` went through.
-/

set_option autoImplicit false

namespace KernelV.Console

open Library Memory

/-! ## Constants -/

abbrev vgaWidth : ℤ := 80
abbrev vgaHeight : ℤ := 25

/-- `VGA_SIZE`: two bytes for each cell. -/
abbrev vgaSize : ℤ := vgaWidth * vgaHeight * 2

theorem vgaWidth_pos : 0 < vgaWidth := by decide

theorem vgaHeight_pos : 0 < vgaHeight := by decide

def vgaCtrlPort : BitVec 16 := 0x3d4
def vgaDataPort : BitVec 16 := 0x3d5

/-- `enum vga_color`, whose values count from 0. -/
inductive VgaColor where
  | black | blue | green | cyan | red | magenta | brown | lightGrey
  | darkGrey | lightBlue | lightGreen | lightCyan | lightRed | lightMagenta | yellow | white
  deriving DecidableEq, Repr

def VgaColor.code (color : VgaColor) : Byte := BitVec.ofNat 8 color.ctorIdx

/-- `VGA_COLOR`. -/
def vgaColor (bg fg : VgaColor) : Byte := bg.code <<< 4 ||| (fg.code &&& 0x0f)

def whiteOnBlack : Byte := vgaColor .black .white

/-- The code of a character. -/
def chr (c : Char) : Byte := BitVec.ofNat 8 c.toNat

/-! ## The state -/

/-- The CRT controller: an index port selects the register that the data port writes. -/
structure Crtc where
  index : Byte
  registers : Byte → Byte

/-- The place of the hardware cursor, in registers `0x0E` and `0x0F`. -/
def Crtc.position (crtc : Crtc) : BitVec 16 := crtc.registers 0x0E ++ crtc.registers 0x0F

/-- The driver and the hardware behind it. -/
structure Vga where
  /-- The memory at `VGA_ADDRESS`, by byte offset. -/
  vram : ℤ → Byte
  cursorRow : ℤ
  cursorCol : ℤ
  crtc : Crtc
  /-- The offsets of all stores so far. -/
  stores : List ℤ
  /-- The characters that `vga_print_string` went through so far. -/
  shown : List Byte

/-- `outb`. -/
def outb (port : BitVec 16) (val : Byte) (s : Vga) : Vga :=
  if port = vgaCtrlPort then { s with crtc := { s.crtc with index := val } }
  else if port = vgaDataPort then
    { s with crtc := { s.crtc with registers := Function.update s.crtc.registers s.crtc.index val } }
  else s

/-- `vga[offset] = val`. -/
def Vga.store (offset : ℤ) (val : Byte) (s : Vga) : Vga :=
  { s with vram := Function.update s.vram offset val, stores := s.stores ++ [offset] }

/-! ## The driver -/

/-- `vga_move_cursor`. -/
def vgaMoveCursor (s : Vga) : Vga :=
  let currentPos := BitVec.ofInt 32 (s.cursorRow * vgaWidth + s.cursorCol)
  let s := outb vgaCtrlPort 0x0f s
  let s := outb vgaDataPort ((currentPos &&& 0xff).setWidth 8) s
  let s := outb vgaCtrlPort 0x0e s
  outb vgaDataPort ((currentPos.sshiftRight 8 &&& 0xff).setWidth 8) s

/-- The loop of `vga_clear_screen`. -/
def clearCells (s : Vga) : Vga :=
  forLoop 0 (vgaWidth * vgaHeight)
    (fun i s => (s.store (i * 2) (chr ' ')).store (i * 2 + 1) whiteOnBlack) s

/-- `vga_clear_screen`. -/
def vgaClearScreen (s : Vga) : Vga :=
  vgaMoveCursor { clearCells s with cursorRow := 0, cursorCol := 0 }

/-- `vga_init`. -/
def vgaInit (s : Vga) : Vga :=
  vgaMoveCursor (vgaClearScreen { s with cursorRow := 0, cursorCol := 0 })

/-- `vga_set_cursor_position`. -/
def vgaSetCursorPosition (row col : ℤ) (s : Vga) : Vga :=
  if 0 ≤ row ∧ row < vgaHeight ∧ 0 ≤ col ∧ col < vgaWidth then
    vgaMoveCursor { s with cursorRow := row, cursorCol := col }
  else s

/-- `vga_put_char`. -/
def vgaPutChar (c color : Byte) (s : Vga) : Vga :=
  let offset := 2 * (s.cursorRow * vgaWidth + s.cursorCol)
  (s.store offset c).store (offset + 1) color

/-- The pass of `vga_scroll_up` for one cell. -/
def moveCellUp (row col : ℤ) (s : Vga) : Vga :=
  let srcOffset := 2 * (row * vgaWidth + col)
  let dstOffset := 2 * ((row - 1) * vgaWidth + col)
  let s := s.store dstOffset (s.vram srcOffset)
  s.store (dstOffset + 1) (s.vram (srcOffset + 1))

/-- The pass of `vga_scroll_up` for one cell of the last line. -/
def clearLastLineCell (col : ℤ) (s : Vga) : Vga :=
  let offset := 2 * ((vgaHeight - 1) * vgaWidth + col)
  (s.store offset (chr ' ')).store (offset + 1) whiteOnBlack

/-- `vga_scroll_up`. -/
def vgaScrollUp (s : Vga) : Vga :=
  let s := forLoop 1 vgaHeight (fun row s => forLoop 0 vgaWidth (moveCellUp row) s) s
  forLoop 0 vgaWidth clearLastLineCell s

/-- The first half of a pass of `vga_print_string`: the character and the wrapping. -/
def advanceCursor (c color : Byte) (s : Vga) : Vga :=
  if c = chr '\n' then { s with cursorRow := s.cursorRow + 1, cursorCol := 0 }
  else
    let s := vgaPutChar c color s
    let s := { s with cursorCol := s.cursorCol + 1 }
    if vgaWidth ≤ s.cursorCol then { s with cursorRow := s.cursorRow + 1, cursorCol := 0 } else s

/-- The second half of a pass: the scrolling. -/
def scrollBelow (s : Vga) : Vga :=
  if vgaHeight ≤ s.cursorRow then
    { vgaScrollUp s with cursorRow := vgaHeight - 1, cursorCol := 0 }
  else s

/-- One pass of `vga_print_string`. -/
def printChar (c color : Byte) (s : Vga) : Vga :=
  vgaMoveCursor (scrollBelow (advanceCursor c color { s with shown := s.shown ++ [c] }))

/-- `vga_print_string`. The end of the list stands for the terminator, as does a zero. -/
def vgaPrintString (str : List Byte) (color : Byte) (s : Vga) : Vga :=
  match str with
  | [] => s
  | c :: str => if c = 0 then s else vgaPrintString str color (printChar c color s)

/-! ## The hardware cursor -/

section MoveCursor

variable (s : Vga)

@[simp] theorem vgaMoveCursor_vram : (vgaMoveCursor s).vram = s.vram := rfl

@[simp] theorem vgaMoveCursor_cursorRow : (vgaMoveCursor s).cursorRow = s.cursorRow := rfl

@[simp] theorem vgaMoveCursor_cursorCol : (vgaMoveCursor s).cursorCol = s.cursorCol := rfl

@[simp] theorem vgaMoveCursor_shown : (vgaMoveCursor s).shown = s.shown := rfl

/-- The two registers after `vga_move_cursor`, whatever they were. -/
theorem position_vgaMoveCursor :
    (vgaMoveCursor s).crtc.position =
      ((BitVec.ofInt 32 (s.cursorRow * vgaWidth + s.cursorCol)).sshiftRight 8 &&& 0xff).setWidth 8 ++
        (BitVec.ofInt 32 (s.cursorRow * vgaWidth + s.cursorCol) &&& 0xff).setWidth 8 := by
  rfl

end MoveCursor

/-- The cursor is on the screen. -/
structure Vga.CursorOnScreen (s : Vga) : Prop where
  rowNonneg : 0 ≤ s.cursorRow
  rowBound : s.cursorRow < vgaHeight
  colNonneg : 0 ≤ s.cursorCol
  colBound : s.cursorCol < vgaWidth

/-- The controller has the place of the cursor. -/
def Vga.CursorSent (s : Vga) : Prop :=
  (s.crtc.position.toNat : ℤ) = s.cursorRow * vgaWidth + s.cursorCol

/-- **`vga_move_cursor` sends a cursor on the screen as it is.** -/
theorem Vga.CursorOnScreen.cursorSent {s : Vga} (onScreen : s.CursorOnScreen) :
    (vgaMoveCursor s).CursorSent := by
  obtain ⟨rowNonneg, rowBound, colNonneg, colBound⟩ := onScreen
  simp only [vgaWidth, vgaHeight] at rowBound colBound
  obtain ⟨place, placed⟩ : ∃ place : ℕ, s.cursorRow * 80 + s.cursorCol = place :=
    Int.eq_ofNat_of_zero_le (by omega)
  have small : place < 2000 := by omega
  have word : (BitVec.ofNat 32 place).toNat = place := by
    rw [BitVec.toNat_ofNat]
    omega
  have positive : (BitVec.ofNat 32 place).msb = false := by
    rw [BitVec.msb_eq_false_iff_two_mul_lt, word]
    omega
  have mask : (0xff : Word).toNat = 2 ^ 8 - 1 := rfl
  have low := toNat_lowField (BitVec.ofNat 32 place) 8 mask
  have high := toNat_field (BitVec.ofNat 32 place) 8 8 mask
  rw [word] at low high
  rw [CursorSent, position_vgaMoveCursor, vgaMoveCursor_cursorRow, vgaMoveCursor_cursorCol, placed,
    BitVec.ofInt_natCast, BitVec.sshiftRight_eq_of_msb_false positive, BitVec.toNat_append, high, low,
    ← Nat.shiftLeft_add_eq_or_of_lt (Nat.mod_lt _ (by decide)), Nat.shiftLeft_eq]
  omega

/-! ## Painting -/

/-- An offset inside the screen. -/
def OnScreen (offset : ℤ) : Prop := 0 ≤ offset ∧ offset < vgaSize

/-- Only the screen memory changes, to `vram`, by stores inside the screen. -/
structure Vga.Paints (s : Vga) (vram : ℤ → Byte) (t : Vga) : Prop where
  vram : t.vram = vram
  cursorRow : t.cursorRow = s.cursorRow
  cursorCol : t.cursorCol = s.cursorCol
  crtc : t.crtc = s.crtc
  shown : t.shown = s.shown
  stores : ∀ offset ∈ t.stores, offset ∈ s.stores ∨ OnScreen offset

namespace Vga.Paints

variable {s t u : Vga} {vram vram' : ℤ → Byte}

theorem refl (s : Vga) : s.Paints s.vram s :=
  ⟨rfl, rfl, rfl, rfl, rfl, fun _ member => .inl member⟩

theorem store (paints : s.Paints vram t) (offset : ℤ) (val : Byte) (nonneg : 0 ≤ offset)
    (bound : offset < 4000) : s.Paints (Function.update vram offset val) (t.store offset val) where
  vram := by rw [Vga.store, paints.vram]
  cursorRow := paints.cursorRow
  cursorCol := paints.cursorCol
  crtc := paints.crtc
  shown := paints.shown
  stores := by
    intro other member
    rcases List.mem_append.mp member with before | here
    · exact paints.stores other before
    · rw [List.mem_singleton.mp here]
      exact .inr ⟨nonneg, bound⟩

theorem trans (first : s.Paints vram t) (second : t.Paints vram' u) : s.Paints vram' u where
  vram := second.vram
  cursorRow := second.cursorRow.trans first.cursorRow
  cursorCol := second.cursorCol.trans first.cursorCol
  crtc := second.crtc.trans first.crtc
  shown := second.shown.trans first.shown
  stores := by
    intro offset member
    rcases second.stores offset member with before | onScreen
    · exact first.stores offset before
    · exact .inr onScreen

end Vga.Paints

/-- The bytes of an empty screen. -/
def blankByte (offset : ℤ) : Byte := if offset % 2 = 0 then chr ' ' else whiteOnBlack

/-- The screen memory with a stretch blanked. -/
def blankedBytes (low high : ℤ) (vram : ℤ → Byte) : ℤ → Byte :=
  overlay low high blankByte vram

/-- Two stores blank the cell behind a blank stretch. -/
theorem blank_cell {s t : Vga} {low high : ℤ} (ordered : low ≤ high) (even : high % 2 = 0)
    (nonneg : 0 ≤ high) (bound : high + 1 < 4000) {vram : ℤ → Byte}
    (paints : s.Paints (blankedBytes low high vram) t) :
    s.Paints (blankedBytes low (high + 2) vram)
      ((t.store high (chr ' ')).store (high + 1) whiteOnBlack) := by
  have character : chr ' ' = blankByte high := (if_pos even).symm
  have colour : whiteOnBlack = blankByte (high + 1) := (if_neg (by omega)).symm
  have painted := (paints.store high (chr ' ') nonneg (by omega)).store (high + 1) whiteOnBlack
    (by omega) bound
  rw [character, colour] at painted ⊢
  rw [blankedBytes, update_overlay ordered, update_overlay (by omega), add_assoc] at painted
  exact painted

/-- **Clearing blanks the screen.** -/
theorem clearCells_paints (s : Vga) : s.Paints (blankedBytes 0 4000 s.vram) (clearCells s) := by
  have cleared := forLoop_induction (show (0 : ℤ) ≤ 2000 by decide)
    (fun i s => (s.store (i * 2) (chr ' ')).store (i * 2 + 1) whiteOnBlack) s
    (fun i t => s.Paints (blankedBytes 0 (i * 2) s.vram) t) ?_ ?_
  · exact cleared
  · rw [zero_mul, blankedBytes, overlay_self]
    exact .refl s
  · intro i t _ below paints
    rw [add_mul, one_mul]
    exact blank_cell (by omega) (by omega) (by omega) (by omega) paints

/-- The screen memory with its first bytes taken from one line below. -/
def copiedBytes (limit : ℤ) (vram : ℤ → Byte) : ℤ → Byte :=
  overlay 0 limit (fun offset => vram (offset + 160)) vram

/-- One store of the copy. -/
theorem update_copiedBytes {limit : ℤ} (nonneg : 0 ≤ limit) (vram : ℤ → Byte) :
    Function.update (copiedBytes limit vram) limit (copiedBytes limit vram (limit + 160)) =
      copiedBytes (limit + 1) vram := by
  -- What the store reads lies a line further down, and has not been overwritten yet.
  have unread : copiedBytes limit vram (limit + 160) = vram (limit + 160) :=
    overlay_of_le (by omega) _ _
  rw [unread]
  exact update_overlay nonneg (fun offset => vram (offset + 160)) vram

/-- One pass of the copy. -/
theorem moveCellUp_paints {s t : Vga} {row col : ℤ} (below : 1 ≤ row) (rowBound : row < 25)
    (colNonneg : 0 ≤ col) (colBound : col < 80)
    (paints : s.Paints (copiedBytes (2 * ((row - 1) * 80 + col)) s.vram) t) :
    s.Paints (copiedBytes (2 * ((row - 1) * 80 + (col + 1))) s.vram) (moveCellUp row col t) := by
  obtain ⟨dst, dstOffset⟩ : ∃ dst, dst = 2 * ((row - 1) * 80 + col) := ⟨_, rfl⟩
  have srcOffset : 2 * (row * 80 + col) = dst + 160 := by omega
  have srcOffset' : dst + 160 + 1 = dst + 1 + 160 := by omega
  have next : 2 * ((row - 1) * 80 + (col + 1)) = dst + 1 + 1 := by omega
  rw [← dstOffset] at paints
  simp only [moveCellUp, ← dstOffset, srcOffset, srcOffset', next]
  have first := paints.store dst (t.vram (dst + 160)) (by omega) (by omega)
  rw [paints.vram, update_copiedBytes (by omega)] at first
  have second := first.store (dst + 1)
    ((t.store dst (copiedBytes dst s.vram (dst + 160))).vram (dst + 1 + 160)) (by omega) (by omega)
  rw [first.vram, update_copiedBytes (by omega)] at second
  rw [paints.vram, first.vram]
  exact second

/-- The screen memory after a scroll. -/
def scrolledBytes (vram : ℤ → Byte) : ℤ → Byte := blankedBytes 3840 4000 (copiedBytes 3840 vram)

/-- **Scrolling moves every line up and blanks the last.** -/
theorem vgaScrollUp_paints (s : Vga) : s.Paints (scrolledBytes s.vram) (vgaScrollUp s) := by
  have copied : s.Paints (copiedBytes 3840 s.vram)
      (forLoop 1 25 (fun row s => forLoop 0 80 (moveCellUp row) s) s) := by
    have lines := forLoop_induction (show (1 : ℤ) ≤ 25 by decide)
      (fun row s => forLoop 0 80 (moveCellUp row) s) s
      (fun row t => s.Paints (copiedBytes (2 * ((row - 1) * 80)) s.vram) t) ?_ ?_
    · exact lines
    · simp only [sub_self, zero_mul, mul_zero]
      rw [copiedBytes, overlay_self]
      exact .refl s
    · intro row t below rowBound paints
      have line := forLoop_induction (show (0 : ℤ) ≤ 80 by decide) (moveCellUp row) t
        (fun col t => s.Paints (copiedBytes (2 * ((row - 1) * 80 + col)) s.vram) t)
        (by rwa [add_zero]) (fun col t => moveCellUp_paints below rowBound)
      have next : (row - 1) * 80 + 80 = (row + 1 - 1) * 80 := by omega
      rw [next] at line
      exact line
  rw [vgaScrollUp]
  generalize forLoop 1 vgaHeight _ s = t at copied ⊢
  refine copied.trans ?_
  have cleared := forLoop_induction (show (0 : ℤ) ≤ 80 by decide) clearLastLineCell t
    (fun col u => t.Paints (blankedBytes 3840 (2 * (24 * 80 + col)) t.vram) u) ?_ ?_
  · rw [copied.vram] at cleared
    exact cleared
  · rw [blankedBytes, show (2 : ℤ) * (24 * 80 + 0) = 3840 from rfl, overlay_self]
    exact .refl t
  · intro col u nonneg bound paints
    rw [show 2 * (24 * 80 + (col + 1)) = 2 * (24 * 80 + col) + 2 by omega]
    exact blank_cell (by omega) (by omega) (by omega) (by omega) paints

/-! ## The invariant -/

/-- All stores so far were inside the screen. -/
abbrev Vga.StoresOnScreen (s : Vga) : Prop := ∀ offset ∈ s.stores, OnScreen offset

/-- What holds between the operations. -/
structure Vga.Valid (s : Vga) : Prop where
  cursor : s.CursorOnScreen
  sent : s.CursorSent
  stores : s.StoresOnScreen

/-- Painting goes on inside the screen. -/
theorem Vga.Paints.storesOnScreen {s t : Vga} {vram : ℤ → Byte} (paints : s.Paints vram t)
    (stores : s.StoresOnScreen) : t.StoresOnScreen := by
  intro offset member
  rcases paints.stores offset member with before | onScreen
  · exact stores offset before
  · exact onScreen

/-- Painting keeps the invariant. -/
theorem Vga.Paints.valid {s t : Vga} {vram : ℤ → Byte} (paints : s.Paints vram t) (valid : s.Valid) :
    t.Valid where
  cursor := by
    obtain ⟨rowNonneg, rowBound, colNonneg, colBound⟩ := valid.cursor
    refine ⟨?_, ?_, ?_, ?_⟩
    · rwa [paints.cursorRow]
    · rwa [paints.cursorRow]
    · rwa [paints.cursorCol]
    · rwa [paints.cursorCol]
  sent := by
    rw [CursorSent, paints.crtc, paints.cursorRow, paints.cursorCol]
    exact valid.sent
  stores := paints.storesOnScreen valid.stores

/-- `vga_move_cursor` restores the invariant wherever the cursor is on the screen. -/
theorem Vga.CursorOnScreen.valid {s : Vga} (cursor : s.CursorOnScreen) (stores : s.StoresOnScreen) :
    (vgaMoveCursor s).Valid where
  cursor := ⟨cursor.rowNonneg, cursor.rowBound, cursor.colNonneg, cursor.colBound⟩
  sent := cursor.cursorSent
  stores := stores

/-- The cursor in the corner. -/
theorem valid_home {s : Vga} (stores : s.StoresOnScreen) :
    (vgaMoveCursor { s with cursorRow := 0, cursorCol := 0 }).Valid := by
  have corner : Vga.CursorOnScreen { s with cursorRow := 0, cursorCol := 0 } :=
    ⟨le_rfl, vgaHeight_pos, le_rfl, vgaWidth_pos⟩
  exact corner.valid stores

theorem valid_vgaClearScreen {s : Vga} (stores : s.StoresOnScreen) : (vgaClearScreen s).Valid :=
  valid_home ((clearCells_paints s).storesOnScreen stores)

theorem valid_vgaInit {s : Vga} (stores : s.StoresOnScreen) : (vgaInit s).Valid := by
  have cleared := valid_vgaClearScreen (s := { s with cursorRow := 0, cursorCol := 0 }) stores
  exact cleared.cursor.valid cleared.stores

theorem Vga.Valid.vgaSetCursorPosition {s : Vga} (valid : s.Valid) (row col : ℤ) :
    (vgaSetCursorPosition row col s).Valid := by
  unfold Console.vgaSetCursorPosition
  split
  case isTrue inside =>
      have cursor : Vga.CursorOnScreen { s with cursorRow := row, cursorCol := col } :=
        ⟨inside.1, inside.2.1, inside.2.2.1, inside.2.2.2⟩
      exact cursor.valid valid.stores
  case isFalse => exact valid

/-- A character goes into the cell of the cursor. -/
theorem Vga.CursorOnScreen.vgaPutChar {s : Vga} (cursor : s.CursorOnScreen) (c color : Byte) :
    s.Paints
      (Function.update
        (Function.update s.vram (2 * (s.cursorRow * 80 + s.cursorCol)) c)
        (2 * (s.cursorRow * 80 + s.cursorCol) + 1) color)
      (vgaPutChar c color s) := by
  obtain ⟨rowNonneg, rowBound, colNonneg, colBound⟩ := cursor
  simp only [vgaHeight, vgaWidth] at rowBound colBound
  exact ((Vga.Paints.refl s).store _ c (by omega) (by omega)).store _ color (by omega) (by omega)

/-- Between the two halves of a pass the cursor may stand one line below the screen. -/
structure Vga.CursorAdvanced (s : Vga) : Prop where
  rowNonneg : 0 ≤ s.cursorRow
  rowBound : s.cursorRow ≤ vgaHeight
  colNonneg : 0 ≤ s.cursorCol
  colBound : s.cursorCol < vgaWidth

theorem Vga.CursorOnScreen.advanceCursor {s : Vga} (cursor : s.CursorOnScreen)
    (stores : s.StoresOnScreen) (c color : Byte) :
    (advanceCursor c color s).CursorAdvanced ∧ (advanceCursor c color s).StoresOnScreen := by
  have paints := cursor.vgaPutChar c color
  obtain ⟨rowNonneg, rowBound, colNonneg, colBound⟩ := cursor
  unfold Console.advanceCursor
  split
  case isTrue =>
      refine ⟨⟨?_, ?_, le_rfl, vgaWidth_pos⟩, stores⟩
      · exact Int.le_add_one rowNonneg
      · exact rowBound
  case isFalse =>
      refine ⟨?_, ?_⟩
      · simp only [paints.cursorCol, paints.cursorRow]
        split
        case isTrue => exact ⟨Int.le_add_one rowNonneg, rowBound, le_rfl, vgaWidth_pos⟩
        case isFalse inside =>
            exact ⟨rowNonneg.trans_eq paints.cursorRow.symm, paints.cursorRow.trans_le rowBound.le,
              Int.le_add_one colNonneg, not_le.mp inside⟩
      · dsimp only
        split
        case isTrue => exact paints.storesOnScreen stores
        case isFalse => exact paints.storesOnScreen stores

/-- Scrolling brings the cursor back. -/
theorem Vga.CursorAdvanced.scrollBelow {s : Vga} (cursor : s.CursorAdvanced)
    (stores : s.StoresOnScreen) :
    (scrollBelow s).CursorOnScreen ∧ (scrollBelow s).StoresOnScreen := by
  unfold Console.scrollBelow
  split
  case isTrue =>
      have corner (t : Vga) : Vga.CursorOnScreen { t with cursorRow := vgaHeight - 1, cursorCol := 0 } :=
        ⟨Int.le_sub_one_of_lt vgaHeight_pos, Int.sub_one_lt_of_le le_rfl, le_rfl, vgaWidth_pos⟩
      exact ⟨corner (vgaScrollUp s), (vgaScrollUp_paints s).storesOnScreen stores⟩
  case isFalse inside =>
      exact ⟨⟨cursor.rowNonneg, not_le.mp inside, cursor.colNonneg, cursor.colBound⟩, stores⟩

/-- **One pass of `vga_print_string` restores the invariant.** -/
theorem Vga.Valid.printChar {s : Vga} (valid : s.Valid) (c color : Byte) :
    (printChar c color s).Valid := by
  have start : Vga.CursorOnScreen { s with shown := s.shown ++ [c] } :=
    ⟨valid.cursor.rowNonneg, valid.cursor.rowBound, valid.cursor.colNonneg, valid.cursor.colBound⟩
  obtain ⟨advanced, stores⟩ := start.advanceCursor valid.stores c color
  obtain ⟨cursor, stores⟩ := advanced.scrollBelow stores
  exact cursor.valid stores

theorem Vga.Valid.vgaPrintString {s : Vga} (valid : s.Valid) (str : List Byte) (color : Byte) :
    (vgaPrintString str color s).Valid := by
  induction str generalizing s with
  | nil => exact valid
  | cons c str ih =>
      unfold Console.vgaPrintString
      split
      case isTrue => exact valid
      case isFalse => exact ih (valid.printChar c color)

/-! ## Runs -/

/-- The public operations. -/
inductive VgaOperation where
  | clearScreen
  | setCursorPosition (row col : ℤ)
  | putChar (c color : Byte)
  | scrollUp
  | moveCursor
  | printString (str : List Byte) (color : Byte)

def VgaOperation.run : VgaOperation → Vga → Vga
  | .clearScreen => vgaClearScreen
  | .setCursorPosition row col => vgaSetCursorPosition row col
  | .putChar c color => vgaPutChar c color
  | .scrollUp => vgaScrollUp
  | .moveCursor => vgaMoveCursor
  | .printString str color => vgaPrintString str color

/-- The hardware and the variables before `vga_init`: anything, with no stores made yet. -/
def powerOn (vram : ℤ → Byte) (crtc : Crtc) (cursorRow cursorCol : ℤ) : Vga :=
  { vram, crtc, cursorRow, cursorCol, stores := [], shown := [] }

theorem valid_vgaInit_powerOn (vram : ℤ → Byte) (crtc : Crtc) (cursorRow cursorCol : ℤ) :
    (vgaInit (powerOn vram crtc cursorRow cursorCol)).Valid := by
  apply valid_vgaInit
  intro offset member
  exact absurd member List.not_mem_nil

/-- **Every operation keeps the invariant.** -/
theorem Vga.Valid.operation {s : Vga} (valid : s.Valid) (op : VgaOperation) : (op.run s).Valid := by
  cases op with
  | clearScreen => exact valid_vgaClearScreen valid.stores
  | setCursorPosition row col => exact valid.vgaSetCursorPosition row col
  | putChar c color => exact (valid.cursor.vgaPutChar c color).valid valid
  | scrollUp => exact (vgaScrollUp_paints s).valid valid
  | moveCursor => exact valid.cursor.valid valid.stores
  | printString str color => exact valid.vgaPrintString str color

/-- **The invariant holds in every run from `vga_init`.** -/
theorem valid_of_operations (vram : ℤ → Byte) (crtc : Crtc) (cursorRow cursorCol : ℤ)
    (ops : List VgaOperation) :
    (ops.foldl (fun s op => op.run s) (vgaInit (powerOn vram crtc cursorRow cursorCol))).Valid := by
  have initial := valid_vgaInit_powerOn vram crtc cursorRow cursorCol
  exact List.foldlRecOn ops _ initial fun _ valid op _ => valid.operation op

end KernelV.Console
