import PeachOS.Code.Machine

/-!
# The text screen, from `kernel.c`

Video memory is one 16-bit cell for each character, row by row. The character is the low byte of a cell, and the
high byte has its colour.
-/

namespace PeachOS

def VGA_WIDTH : Nat := 80
def VGA_HEIGHT : Nat := 20

/-- The globals of `kernel.c`, and the two registers of the hardware cursor. `written` is not in the code: it has the
index of every write to `video_mem`, the last one first. -/
structure Terminal where
  video_mem : Nat → UInt16
  terminal_row : Nat
  terminal_col : Nat
  cursor : Nat
  written : List Nat

/-- `char` is signed, so a character from 0x80 on sets the bits of the colour. -/
def terminal_make_char (c colour : UInt8) : UInt16 := colour.toUInt16 <<< 8 ||| c.toInt8.toInt16.toUInt16

namespace Terminal

/-- `video_mem[i] = v`. -/
def set (t : Terminal) (i : Nat) (v : UInt16) : Terminal :=
  { t with
    video_mem := fun j => if j = i then v else t.video_mem j
    written := i :: t.written }

def terminal_putchar (t : Terminal) (x y : Nat) (c colour : UInt8) : Terminal :=
  t.set (y * VGA_WIDTH + x) (terminal_make_char c colour)

/-- The loop over a row at column `x`, with `n` columns left. -/
def terminal_scroll_row (y : Nat) : Nat → Nat → Terminal → Terminal
  | 0, _, t => t
  | n + 1, x, t =>
    terminal_scroll_row y n (x + 1) (t.set ((y - 1) * VGA_WIDTH + x) (t.video_mem (y * VGA_WIDTH + x)))

/-- The loop over the rows at row `y`, with `n` rows left. -/
def terminal_scroll_rows : Nat → Nat → Terminal → Terminal
  | 0, _, t => t
  | n + 1, y, t => terminal_scroll_rows n (y + 1) (terminal_scroll_row y VGA_WIDTH 0 t)

/-- The loop over the last row. -/
def terminal_scroll_last : Nat → Nat → Terminal → Terminal
  | 0, _, t => t
  | n + 1, x, t =>
    terminal_scroll_last n (x + 1) (t.set ((VGA_HEIGHT - 1) * VGA_WIDTH + x) (terminal_make_char 32 0))

def terminal_scroll (t : Terminal) : Terminal :=
  terminal_scroll_last VGA_WIDTH 0 (terminal_scroll_rows (VGA_HEIGHT - 1) 1 t)

def terminal_update_cursor (t : Terminal) (row col : Nat) : Terminal :=
  { t with cursor := u16 (row * VGA_WIDTH + col) }

/-- The end of both branches that go to a new row. -/
def terminal_next_row (t : Terminal) : Terminal :=
  let t := { t with terminal_row := u16 (t.terminal_row + 1), terminal_col := 0 }
  if t.terminal_row ≥ VGA_HEIGHT then { t.terminal_scroll with terminal_row := VGA_HEIGHT - 1 } else t

def terminal_writechar (t : Terminal) (c colour : UInt8) : Terminal :=
  if c = 0x08 then
    let t := if t.terminal_col > 0 then { t with terminal_col := t.terminal_col - 1 } else t
    let t := t.terminal_putchar t.terminal_col t.terminal_row 32 colour
    t.terminal_update_cursor t.terminal_row t.terminal_col
  else if c = 10 then
    let t := t.terminal_next_row
    t.terminal_update_cursor t.terminal_row t.terminal_col
  else
    let t := t.terminal_putchar t.terminal_col t.terminal_row c colour
    let t := { t with terminal_col := u16 (t.terminal_col + 1) }
    let t := if t.terminal_col ≥ VGA_WIDTH then t.terminal_next_row else t
    t.terminal_update_cursor t.terminal_row t.terminal_col

def terminal_initialize_row (y : Nat) : Nat → Nat → Terminal → Terminal
  | 0, _, t => t
  | n + 1, x, t => terminal_initialize_row y n (x + 1) (t.terminal_putchar x y 32 0)

def terminal_initialize_rows : Nat → Nat → Terminal → Terminal
  | 0, _, t => t
  | n + 1, y, t => terminal_initialize_rows n (y + 1) (terminal_initialize_row y VGA_WIDTH 0 t)

end Terminal

open Terminal in
/-- `video_mem` is what is in the video memory before. -/
def terminal_initialize (video_mem : Nat → UInt16) : Terminal :=
  (terminal_initialize_rows VGA_HEIGHT 0 ⟨video_mem, 0, 0, 0, []⟩).terminal_update_cursor 0 0

end PeachOS
