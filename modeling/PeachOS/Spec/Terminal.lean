import PeachOS.Code.Terminal

/-!
# What the screen shows

A transcript is the rows that have been closed and the row that is being written. The screen shows the last rows of
it, with blanks behind the end of a row and below the last row.
-/

namespace PeachOS

structure Transcript where
  closed : List (List UInt8)
  current : List UInt8

namespace Transcript

def empty : Transcript := ⟨[], []⟩

def close (s : Transcript) : Transcript := ⟨s.closed ++ [s.current], []⟩

/-- A character of its own goes to the end of the row. -/
def append (s : Transcript) (c : UInt8) : Transcript := { s with current := s.current ++ [c] }

def put (s : Transcript) (c : UInt8) : Transcript :=
  if c = 0x08 then { s with current := s.current.dropLast }
  else if c = 10 then s.close
  else if (s.append c).current.length = VGA_WIDTH then (s.append c).close
  else s.append c

def rows (s : Transcript) : List (List UInt8) := s.closed ++ [s.current]

/-- The last rows, as many as the screen has. -/
def lastRows (s : Transcript) : List (List UInt8) := s.rows.drop (s.rows.length - VGA_HEIGHT)

/-- The character in row `y` and column `x` of the screen. -/
def cell (s : Transcript) (y x : Nat) : UInt8 := (s.lastRows.getD y []).getD x 32

end Transcript

/-- The character byte of a cell. -/
def Terminal.char (t : Terminal) (y x : Nat) : UInt8 := (t.video_mem (y * VGA_WIDTH + x)).toUInt8

/-- The terminal has written inside of the screen only, its cursor is on the screen, and the screen shows the
transcript. -/
structure Terminal.Refines (t : Terminal) (s : Transcript) : Prop where
  written : ∀ i ∈ t.written, i < VGA_WIDTH * VGA_HEIGHT
  row : t.terminal_row < VGA_HEIGHT
  col : t.terminal_col < VGA_WIDTH
  shows : ∀ y < VGA_HEIGHT, ∀ x < VGA_WIDTH, t.char y x = s.cell y x

end PeachOS
