import PeachOS.Code.Isr80h
import PeachOS.Heap.Table

/-!
# Buffers of a process

Three system calls fill a buffer that the caller names by its address. They should write to the memory of the caller
and to nothing else.
-/

namespace PeachOS

/-! ## The line that is typed -/

/-- The line after more keys: backspace takes the last character back, and a line end or the size of the buffer ends
it. -/
def typedFrom (keys : Nat → UInt8) (max : Nat) : Nat → Nat → List UInt8 → Option (List UInt8)
  | 0, _, _ => none
  | fuel + 1, n, line =>
    if max ≤ line.length + 1 then some line
    else if keys n = 0 then typedFrom keys max fuel (n + 1) line
    else if keys n = 8 then typedFrom keys max fuel (n + 1) line.dropLast
    else if keys n = 10 ∨ keys n = 13 then some (line ++ [keys n])
    else typedFrom keys max fuel (n + 1) (line ++ [keys n])

/-- The line that `readline` gets. `none` says that it is not finished. -/
def typed (keys : Nat → UInt8) (max fuel : Nat) : Option (List UInt8) := do
  let (c, n) ← readline_drain keys fuel 0
  typedFrom keys max fuel n (if c ≠ 0 then [c] else [])

/-! ## The calls -/

/-- A call that fills a buffer. A `readline` comes with the keys that are typed. -/
inductive BufferCall
  | read (fd count : Int)
  | readdir (index buf_size : Int)
  | readline (max : Int) (keys : Nat → UInt8) (fuel : Nat)

namespace BufferCall

def run (k : Kernel) (s : Vfs) (task user_buf : Nat) : BufferCall → Option (Int × Kernel)
  | read fd count => k.isr80h_command3_read s task fd user_buf count
  | readdir index buf_size => k.isr80h_command10_readdir s task index user_buf buf_size
  | readline max keys fuel => k.isr80h_command6_readline keys fuel task user_buf max

/-- The count is accepted, and a line has been typed. -/
def Accepted : BufferCall → Prop
  | read _ count => 0 < count ∧ count < 4096
  | readdir index buf_size => 0 ≤ index ∧ 0 < buf_size ∧ buf_size ≤ 256
  | readline max keys fuel => (0 < max ∧ max ≤ 512) ∧ typed keys max.toNat fuel ≠ none

/-- The bytes that go to the buffer. A line has a zero behind it. -/
def bytes : BufferCall → Nat
  | read _ count => count.toNat
  | readdir _ buf_size => buf_size.toNat
  | readline max keys fuel => ((typed keys max.toNat fuel).getD []).length + 1

/-- There is something to give: the file can be read, the directory has the entry, the line is not empty. -/
def Gives (s : Vfs) : BufferCall → Prop
  | read fd count => 0 < (s.fread (fun _ => 0) 1 count.toNat fd).1
  | readdir index buf_size => 0 < (s.freaddir index (fun _ => 0) buf_size.toNat).1
  | readline max keys fuel => (typed keys max.toNat fuel).getD [] ≠ []

end BufferCall

namespace Kernel

/-- There are free blocks for the kernel's buffers. `readline` does not say if it has got the second one. -/
def HasMemory (k : Kernel) : BufferCall → Prop
  | .readline _ _ _ => ∃ i < k.heap.table.total, k.heap.table.Free i
  | _ => ∃ i < k.heap.table.total, ∃ j < k.heap.table.total, i ≠ j ∧ k.heap.table.Free i ∧ k.heap.table.Free j

/-! ## The memory of a process -/

/-- A size in whole pages. -/
def pages (size : Nat) : Nat := (size + 4095) / 4096 * 4096

/-- The program block and the stack block of a process. -/
def Own (k : Kernel) (process x : Nat) : Prop :=
  ((k.process process).ptr ≤ x ∧ x < (k.process process).ptr + pages (k.process process).size) ∨
    ((k.process process).stack ≤ x ∧ x < (k.process process).stack + PEACHOS_USER_PROGRAM_STACK_SIZE)

/-- The virtual addresses where they are mapped. -/
def InPages (k : Kernel) (process va : Nat) : Prop :=
  (PEACHOS_PROGRAM_VIRTUAL_ADDRESS ≤ va ∧
      va < PEACHOS_PROGRAM_VIRTUAL_ADDRESS + pages (k.process process).size) ∨
    (PEACHOS_PROGRAM_VIRTUAL_STACK_ADDRESS_END ≤ va ∧ va < PEACHOS_PROGRAM_VIRTUAL_STACK_ADDRESS_START)

/-- A buffer of `n` bytes is in these pages. Addresses have 32 bits. -/
def BufferInside (k : Kernel) (process user_buf n : Nat) : Prop :=
  ∀ i < n, k.InPages process ((user_buf + i) % 2 ^ 32)

/-- A byte of a free block. New buffers are in free blocks. -/
def FreeByte (k : Kernel) (x : Nat) : Prop :=
  ∃ i < k.heap.table.total, k.heap.table.Free i ∧ k.heap.saddr + i * 4096 ≤ x ∧ x < k.heap.saddr + i * 4096 + 4096

/-- A call that returns, and that changed the memory of the process only. If the buffer is not in its pages, it has
given nothing, and it has not changed the memory. -/
def WritesOwn (k : Kernel) (process user_buf n : Nat) (res : Option (Int × Kernel)) : Prop :=
  ∃ r k', res = some (r, k') ∧ (∀ x, ¬ k.FreeByte x → ¬ k.Own process x → k'.mem x = k.mem x) ∧
    (¬ k.BufferInside process user_buf n → r ≤ 0 ∧ ∀ x, ¬ k.FreeByte x → k'.mem x = k.mem x)

end Kernel

end PeachOS
