import KernelV.Console.Vga

/-!
# The console as a window on an unbounded terminal

The reference terminal has as many lines as it needs and never scrolls. The console shows
its last 25 lines, or the first 25 as long as there are no more: after any calls of
`vga_print_string`, the cells of the screen and the cursor are those of the terminal, seen
from the line `Terminal.top` (`shows_of_prints`).

What makes the simulation go through is that everything at or after the cursor is still
blank, so the line that scrolling brings in is the next line of the terminal.
-/

set_option autoImplicit false

namespace KernelV.Console

open Library Memory

/-! ## The reference terminal -/

/-- A character with its colour. -/
structure Cell where
  char : Byte
  color : Byte
  deriving DecidableEq, Repr

def blankCell : Cell := ⟨chr ' ', whiteOnBlack⟩

/-- A terminal with unboundedly many lines. -/
structure Terminal where
  cells : ℕ × ℕ → Cell
  row : ℕ
  col : ℕ

namespace Terminal

def start : Terminal := ⟨fun _ => blankCell, 0, 0⟩

/-- One character: a newline or a full line moves to the next line. -/
def put (c color : Byte) (t : Terminal) : Terminal :=
  if c = chr '\n' then { t with row := t.row + 1, col := 0 }
  else
    let cells := Function.update t.cells (t.row, t.col) ⟨c, color⟩
    if t.col = 79 then ⟨cells, t.row + 1, 0⟩ else ⟨cells, t.row, t.col + 1⟩

/-- The characters of a C string, up to its terminator. -/
def print (str : List Byte) (color : Byte) (t : Terminal) : Terminal :=
  (str.takeWhile (· ≠ 0)).foldl (fun t c => t.put c color) t

/-- The first line on the screen. -/
def top (t : Terminal) : ℕ := t.row - 24

/-- Everything at or after the cursor is blank, and the cursor is inside its line. -/
structure BlankAfter (t : Terminal) : Prop where
  colBound : t.col < 80
  blank : ∀ row col, t.row < row ∨ t.row = row ∧ t.col ≤ col → t.cells (row, col) = blankCell

end Terminal

/-- A cell of the screen. -/
def Vga.cell (s : Vga) (row col : ℕ) : Cell :=
  ⟨s.vram (2 * (row * 80 + col)), s.vram (2 * (row * 80 + col) + 1)⟩

/-- The screen and the cursor are those of a terminal, seen from a line of it. -/
structure ShowsFrom (top : ℕ) (t : Terminal) (s : Vga) : Prop where
  cells : ∀ row col, row < 25 → col < 80 → s.cell row col = t.cells (top + row, col)
  cursorRow : s.cursorRow = t.row - top
  cursorCol : s.cursorCol = t.col

/-- The console shows the last lines of a terminal. -/
def Shows (t : Terminal) (s : Vga) : Prop := ShowsFrom t.top t s

/-! ## Single characters -/

theorem Terminal.BlankAfter.put {t : Terminal} (after : t.BlankAfter) (c color : Byte) :
    (t.put c color).BlankAfter := by
  have colBound := after.colBound
  unfold Terminal.put
  split
  case isTrue =>
      refine ⟨Nat.zero_lt_succ 79, ?_⟩
      intro row col later
      apply after.blank
      simp only at later
      omega
  case isFalse =>
      -- The cell that is written lies before the new cursor.
      have written {row col : ℕ} (later : t.row < row ∨ t.row = row ∧ t.col < col) :
          Function.update t.cells (t.row, t.col) ⟨c, color⟩ (row, col) = blankCell := by
        rw [Function.update_of_ne]
        · exact after.blank row col (by omega)
        · intro same
          simp only [Prod.mk.injEq] at same
          omega
      dsimp only
      split
      case isTrue =>
          refine ⟨Nat.zero_lt_succ 79, ?_⟩
          intro row col later
          apply written
          simp only at later
          omega
      case isFalse inside =>
          refine ⟨?_, ?_⟩
          · simp only
            omega
          · intro row col later
            apply written
            simp only at later
            omega

/-- The cells of the screen after a character is put at the cursor. -/
theorem ShowsFrom.cell_vgaPutChar {top : ℕ} {t : Terminal} {s : Vga} (shows : ShowsFrom top t s)
    (cursor : s.CursorOnScreen) (c color : Byte) {i j : ℕ} (iBound : i < 25) (jBound : j < 80) :
    (vgaPutChar c color s).cell i j =
      Function.update t.cells (t.row, t.col) ⟨c, color⟩ (top + i, j) := by
  have row := shows.cursorRow
  have col := shows.cursorCol
  have colBound : s.cursorCol < 80 := cursor.colBound
  rw [Vga.cell, (cursor.vgaPutChar c color).vram]
  by_cases here : top + i = t.row ∧ j = t.col
  · have offset : 2 * ((i : ℤ) * 80 + j) = 2 * (s.cursorRow * 80 + s.cursorCol) := by omega
    rw [here.1, here.2, Function.update_self, ← here.2, offset, Function.update_self,
      Function.update_of_ne (by omega), Function.update_self]
  · rw [Function.update_of_ne (by omega), Function.update_of_ne (by omega),
      Function.update_of_ne (by omega), Function.update_of_ne (by omega),
      Function.update_of_ne (by simpa using here)]
    exact shows.cells i j iBound jBound

/-- The first half of a pass writes the character and moves the cursor as the terminal
does, without scrolling. -/
theorem ShowsFrom.advanceCursor {top : ℕ} {t : Terminal} {s : Vga} (shows : ShowsFrom top t s)
    (cursor : s.CursorOnScreen) (c color : Byte) :
    ShowsFrom top (t.put c color) (advanceCursor c color s) := by
  have paints := cursor.vgaPutChar c color
  have row := shows.cursorRow
  have col := shows.cursorCol
  have cells (i j : ℕ) (iBound : i < 25) (jBound : j < 80) :=
    shows.cell_vgaPutChar cursor c color iBound jBound
  have colBound : s.cursorCol < 80 := cursor.colBound
  have below : ((t.row + 1 : ℕ) : ℤ) - top = t.row - top + 1 := by omega
  unfold Console.advanceCursor Terminal.put
  by_cases newline : c = chr '\n'
  · rw [if_pos newline, if_pos newline]
    exact ⟨shows.cells, by rw [below, ← row], rfl⟩
  · rw [if_neg newline, if_neg newline]
    simp only [paints.cursorCol, paints.cursorRow, vgaWidth]
    by_cases full : t.col = 79
    · rw [if_pos full, if_pos (by omega)]
      exact ⟨cells, by rw [below, ← row], rfl⟩
    · rw [if_neg full, if_neg (by omega)]
      exact ⟨cells, paints.cursorRow.trans row, by rw [col, Nat.cast_succ]⟩

/-! ## Scrolling -/

/-- The cells of the screen after a scroll. -/
theorem cell_vgaScrollUp (s : Vga) {row col : ℕ} (rowBound : row < 25) (colBound : col < 80) :
    (vgaScrollUp s).cell row col = if row < 24 then s.cell (row + 1) col else blankCell := by
  rw [Vga.cell, (vgaScrollUp_paints s).vram]
  split
  case isTrue above =>
      have copied {offset : ℤ} (nonneg : 0 ≤ offset) (bound : offset < 3840) :
          scrolledBytes s.vram offset = s.vram (offset + 160) := by
        rw [scrolledBytes, blankedBytes, overlay_of_lt bound, copiedBytes, overlay_of_mem nonneg bound]
      rw [copied (by omega) (by omega), copied (by omega) (by omega), Vga.cell]
      have character : 2 * ((row : ℤ) * 80 + col) + 160 = 2 * ((row + 1 : ℕ) * 80 + col) := by omega
      have colour : 2 * ((row : ℤ) * 80 + col) + 1 + 160 = 2 * ((row + 1 : ℕ) * 80 + col) + 1 := by omega
      rw [character, colour]
  case isFalse last =>
      have blanked {offset : ℤ} (lower : 3840 ≤ offset) (bound : offset < 4000) :
          scrolledBytes s.vram offset = blankByte offset := by
        rw [scrolledBytes, blankedBytes, overlay_of_mem lower bound]
      rw [blanked (by omega) (by omega), blanked (by omega) (by omega), blankByte, blankByte,
        if_pos (by omega), if_neg (by omega), blankCell]

/-- A cursor below the screen brings in the next line of the terminal. -/
theorem ShowsFrom.scroll {top : ℕ} {t : Terminal} {s : Vga} (shows : ShowsFrom top t s)
    (after : t.BlankAfter) (below : t.row = top + 25) (first : t.col = 0) :
    ShowsFrom (top + 1) t { vgaScrollUp s with cursorRow := vgaHeight - 1, cursorCol := 0 } := by
  have scrolled {row col : ℕ} (rowBound : row < 25) (colBound : col < 80) :=
    cell_vgaScrollUp s rowBound colBound
  generalize vgaScrollUp s = u at scrolled ⊢
  refine ⟨?_, ?_, ?_⟩
  · intro row col rowBound colBound
    refine (scrolled rowBound colBound).trans ?_
    split
    case isTrue above =>
        rw [shows.cells (row + 1) col (by omega) colBound, add_assoc, add_comm 1]
    case isFalse last =>
        exact (after.blank _ _ (by omega)).symm
  · simp only [vgaHeight]
    omega
  · rw [first]
    rfl

/-! ## Strings -/

/-- A character leaves the terminal in its line or at the start of the next. -/
theorem Terminal.put_cases (c color : Byte) (t : Terminal) :
    (t.put c color).row = t.row ∨ (t.put c color).row = t.row + 1 ∧ (t.put c color).col = 0 := by
  unfold Terminal.put
  split
  case isTrue => exact .inr ⟨rfl, rfl⟩
  case isFalse =>
      dsimp only
      split
      case isTrue => exact .inr ⟨rfl, rfl⟩
      case isFalse => exact .inl rfl

/-- The hardware cursor is not part of what is shown. -/
theorem ShowsFrom.vgaMoveCursor {top : ℕ} {t : Terminal} {s : Vga} (shows : ShowsFrom top t s) :
    ShowsFrom top t (vgaMoveCursor s) :=
  ⟨shows.cells, shows.cursorRow, shows.cursorCol⟩

/-- The console and the terminal are in step. -/
structure InStep (t : Terminal) (s : Vga) : Prop where
  shows : Shows t s
  after : t.BlankAfter
  valid : s.Valid

/-- **One pass of `vga_print_string` is one character of the terminal.** -/
theorem InStep.printChar {t : Terminal} {s : Vga} (inStep : InStep t s) (c color : Byte) :
    InStep (t.put c color) (printChar c color s) := by
  obtain ⟨shows, after, valid⟩ := inStep
  have after' := after.put c color
  refine ⟨?_, after', valid.printChar c color⟩
  -- The history of characters is neither on the screen nor in the terminal.
  have started : ShowsFrom t.top t { s with shown := s.shown ++ [c] } :=
    ⟨shows.cells, shows.cursorRow, shows.cursorCol⟩
  have cursor : Vga.CursorOnScreen { s with shown := s.shown ++ [c] } :=
    ⟨valid.cursor.rowNonneg, valid.cursor.rowBound, valid.cursor.colNonneg, valid.cursor.colBound⟩
  have advanced := started.advanceCursor cursor c color
  have rowBound : s.cursorRow < 25 := valid.cursor.rowBound
  have row := shows.cursorRow
  have row' := advanced.cursorRow
  apply ShowsFrom.vgaMoveCursor
  unfold scrollBelow
  split
  case isTrue below =>
      simp only [vgaHeight] at below
      obtain same | ⟨next, first⟩ := t.put_cases c color
      · omega
      · have scrolled := advanced.scroll after' (by omega) first
        have top : (t.put c color).top = t.top + 1 := by
          simp only [Terminal.top] at row row' below ⊢
          omega
        rw [top]
        exact scrolled
  case isFalse inside =>
      simp only [vgaHeight] at inside
      have top : (t.put c color).top = t.top := by
        have moved := t.put_cases c color
        simp only [Terminal.top] at row row' ⊢
        omega
      rw [top]
      exact advanced

/-- A whole string. -/
theorem InStep.vgaPrintString {t : Terminal} {s : Vga} (inStep : InStep t s) (str : List Byte)
    (color : Byte) : InStep (t.print str color) (vgaPrintString str color s) := by
  induction str generalizing t s with
  | nil => exact inStep
  | cons c str ih =>
      unfold Console.vgaPrintString Terminal.print
      by_cases terminator : c = 0
      · rw [if_pos terminator, List.takeWhile_cons_of_neg (by simpa using terminator)]
        exact inStep
      · rw [if_neg terminator, List.takeWhile_cons_of_pos (by simpa using terminator)]
        exact ih (inStep.printChar c color)

/-- After `vga_init` the screen is that of an empty terminal. -/
theorem shows_vgaInit (s : Vga) : Shows .start (vgaInit s) := by
  have painted := (clearCells_paints { s with cursorRow := 0, cursorCol := 0 }).vram
  have cursorRow : (vgaInit s).cursorRow = 0 := by
    rw [vgaInit, vgaMoveCursor_cursorRow, vgaClearScreen, vgaMoveCursor_cursorRow]
  have cursorCol : (vgaInit s).cursorCol = 0 := by
    rw [vgaInit, vgaMoveCursor_cursorCol, vgaClearScreen, vgaMoveCursor_cursorCol]
  refine ⟨?_, cursorRow, cursorCol⟩
  intro row col rowBound colBound
  have blanked {offset : ℤ} (nonneg : 0 ≤ offset) (bound : offset < 4000) :
      (vgaInit s).vram offset = blankByte offset := by
    rw [vgaInit, vgaMoveCursor_vram, vgaClearScreen, vgaMoveCursor_vram, painted, blankedBytes,
      overlay_of_mem nonneg bound]
  rw [Vga.cell, blanked (by omega) (by omega), blanked (by omega) (by omega), blankByte, blankByte,
    if_pos (by omega), if_neg (by omega)]
  rfl

/-- **The console shows the end of an unbounded terminal**, after any calls of
`vga_print_string` from `vga_init`. -/
theorem shows_of_prints (vram : ℤ → Byte) (crtc : Crtc) (cursorRow cursorCol : ℤ)
    (prints : List (List Byte × Byte)) :
    Shows (prints.foldl (fun t call => t.print call.1 call.2) .start)
      (prints.foldl (fun s call => vgaPrintString call.1 call.2 s)
        (vgaInit (powerOn vram crtc cursorRow cursorCol))) := by
  have initial : InStep .start (vgaInit (powerOn vram crtc cursorRow cursorCol)) :=
    ⟨shows_vgaInit _, ⟨Nat.zero_lt_succ 79, fun _ _ _ => rfl⟩, valid_vgaInit_powerOn ..⟩
  generalize vgaInit (powerOn vram crtc cursorRow cursorCol) = s at initial ⊢
  generalize Terminal.start = t at initial ⊢
  suffices inStep : InStep _ _ from inStep.shows
  induction prints generalizing t s with
  | nil => exact initial
  | cons call prints ih => exact ih _ _ (initial.vgaPrintString call.1 call.2)

end KernelV.Console
