import PeachOS.Spec.UserBuffers

/-!
# A line editor

`readline` should be an editor of one line. What it gives depends on the characters that are typed, and not on when the
machine was idle between them.
-/

namespace PeachOS

def lineEnd (c : UInt8) : Bool := c = 13 ∨ c = 10

/-- A character is added, or backspace takes the last one back. -/
def editKey (line : List UInt8) (c : UInt8) : List UInt8 := if c = 8 then line.dropLast else line ++ [c]

/-- The line with more characters. It is finished at a line end, which is part of it, or when it has `max - 1`
characters. `none` says that it is not finished. -/
def editFrom (max : Nat) : List UInt8 → List UInt8 → Option (List UInt8)
  | line, [] => if max ≤ line.length + 1 then some line else none
  | line, c :: chars =>
    if max ≤ line.length + 1 then some line
    else if lineEnd c then some (line ++ [c]) else editFrom max (editKey line c) chars

/-- Line ends before the line are left from the one before. -/
def edit (max : Nat) (chars : List UInt8) : Option (List UInt8) := editFrom max [] (chars.dropWhile lineEnd)

/-- The characters among `m` keys from `n` on. A zero is no character. -/
def charsOf (keys : Nat → UInt8) (n m : Nat) : List UInt8 := ((List.range' n m).map keys).filter (· ≠ 0)

/-- The line that is typed. -/
def LineOf (keys : Nat → UInt8) (max : Nat) (text : List UInt8) : Prop := ∃ m, edit max (charsOf keys 0 m) = some text

/-- A call that reads this line: it returns its length, and the line and a zero are at the places `phys`. -/
structure ReadsLine (k k' : Kernel) (keys : Nat → UInt8) (max : Nat) (phys : Nat → Nat) (r : Int) (text : List UInt8) :
    Prop where
  line : LineOf keys max text
  result : r = text.length
  small : text.length < max
  bytes : text ≠ [] → ∀ i c, (text ++ [0])[i]? = some c → k'.mem (phys i) = c
  others : ∀ x, ¬ k.FreeByte x → (∀ i < max, x ≠ phys i) → k'.mem x = k.mem x

/-- There are blocks for the two buffers of the call. -/
def Kernel.TwoFree (k : Kernel) : Prop :=
  ∃ i < k.heap.table.total, ∃ j < k.heap.table.total, i ≠ j ∧ k.heap.table.Free i ∧ k.heap.table.Free j

/-! ## The keys for which `readline` is one -/

/-- A backspace comes when the line is empty. Until then there is no line end, and there is place for two more
characters. -/
def TakenBack (max : Nat) : List UInt8 → List UInt8 → Prop
  | _, [] => False
  | line, c :: chars =>
    line.length + 2 < max ∧ lineEnd c = false ∧ (c = 8 ∧ line = [] ∨ TakenBack max (editKey line c) chars)

/-- Key `m` is the first one that is not a line end. If it is an idle wake-up, the next character is not a line end. If
it is a backspace, which is stored, another one takes it back. -/
def EditsLine (keys : Nat → UInt8) (max : Nat) : Prop :=
  ∃ m, (∀ i < m, lineEnd (keys i)) ∧ lineEnd (keys m) = false ∧
    if keys m = 0 then max = 1 ∨ ∃ j d chars, charsOf keys (m + 1) j = d :: chars ∧ (lineEnd d → LineOf keys max [d])
    else if keys m = 8 then ∃ j, TakenBack max [] (charsOf keys (m + 1) j)
    else 2 ≤ max

end PeachOS
