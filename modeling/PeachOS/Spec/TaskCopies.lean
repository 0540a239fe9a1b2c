import PeachOS.Code.Isr80h

/-!
# Copies between the kernel and a task

The page directory of a task says where its bytes are. A copy moves bytes from or to these places and leaves the
page tables as they were. It uses one block of the heap for the time of the copy.
-/

namespace PeachOS

/-- The bytes before the first zero, at most `n` of them. -/
def stringLength (s : Nat → UInt8) : Nat → Nat
  | 0 => 0
  | n + 1 => if s 0 = 0 then 0 else stringLength (fun i => s (i + 1)) n + 1

def InPage (page x : Nat) : Prop := page ≤ x ∧ x < page + 4096

namespace Kernel

def HeapAddress (k : Kernel) (a : Nat) : Prop := k.heap.saddr ≤ a ∧ a < k.heap.saddr + k.heap.table.total * 4096

/-- Where the directory of the task has the byte at `va`. Addresses have 32 bits. -/
def userAddress (k : Kernel) (task va : Nat) : Option Nat :=
  page_walk k.mem (read32 k.mem (k.tasks.task task).page_directory) (va % 2 ^ 32)

/-- What the kernel works with during a call: the block table, the kernel from the first megabyte up to its first stack,
and the page of the stack below `tss.esp0`. -/
def KernelByte (k : Kernel) (x : Nat) : Prop :=
  k.TableByte x ∨ (0x100000 ≤ x ∧ x < 0x200000) ∨ (tss_esp0 - PAGING_PAGE_SIZE ≤ x ∧ x < tss_esp0)

/-- The directory of the task has byte `i` of the range at `phys i`. The range is outside of the kernel heap, and its
bytes are not those of the kernel. -/
structure UserRange (k : Kernel) (task user n : Nat) (phys : Nat → Nat) : Prop where
  mapped : ∀ i < n, k.userAddress task (user + i) = some (phys i)
  outside : ∀ i < n, ¬ k.HeapAddress ((user + i) % 2 ^ 32)
  apart : ∀ i < n, ¬ k.KernelByte (phys i)

/-- The block at `tmp`, and its entry of the block table. -/
def Spare (k : Kernel) (tmp x : Nat) : Prop :=
  InPage tmp x ∨ x = PEACHOS_HEAP_TABLE_ADDRESS + (tmp - k.heap.saddr) / PEACHOS_HEAP_BLOCK_SIZE

/-- Every entry of the page tables is the same. -/
def SameTables (k k' : Kernel) (table : Nat → Nat) : Prop :=
  ∀ i < 1024, ∀ j < 1024, read32 k'.mem (table i + 4 * j) = read32 k.mem (table i + 4 * j)

end Kernel

/-- The `n` bytes at `buf` are at the places `phys`. Apart from spare bytes, no other one is changed. -/
structure CopiedTo (mem mem' : Nat → UInt8) (spare : Nat → Prop) (buf n : Nat) (phys : Nat → Nat) : Prop where
  bytes : ∀ i < n, mem' (phys i) = mem (buf + i)
  others : ∀ x, ¬ spare x → (∀ i < n, x ≠ phys i) → mem' x = mem x

/-- The string at the places `phys`, cut to `max - 1` bytes, is at `buf`. -/
structure CopiedString (mem mem' : Nat → UInt8) (spare : Nat → Prop) (buf max : Nat) (phys : Nat → Nat) : Prop where
  bytes : ∀ i < stringLength (fun i => mem (phys i)) (max - 1), mem' (buf + i) = mem (phys i)
  nul : mem' (buf + stringLength (fun i => mem (phys i)) (max - 1)) = 0
  others : ∀ x, ¬ spare x → ¬ (buf ≤ x ∧ x ≤ buf + stringLength (fun i => mem (phys i)) (max - 1)) → mem' x = mem x

end PeachOS
