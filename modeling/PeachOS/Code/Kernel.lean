import PeachOS.Code.Heap
import PeachOS.Code.Task

/-!
# Kernel state: memory, the kernel heap, tasks and processes

Physical memory is bytes, and page tables and programs are in it. A `struct task` or a `struct process` is
kept as a record at its address, and the block table of the heap in the heap. From `memory.c`, `string.c`,
`kheap.c` and `process.h`.
-/

namespace PeachOS

def PEACHOS_MAX_PATH : Nat := 108
def PEACHOS_MAX_PROCESSES : Nat := 12
def PEACHOS_HEAP_SIZE_BYTES : Nat := 104857600
def PEACHOS_HEAP_ADDRESS : Nat := 0x01000000
def PEACHOS_HEAP_TABLE_ADDRESS : Nat := 0x00007E00

/-- `tss.esp0`, as `kernel_main` sets it. -/
def tss_esp0 : Nat := 0x600000

/-! ## Memory -/

def read32 (mem : Nat → UInt8) (a : Nat) : Nat := le32 fun i => mem (a + i)

def write32 (mem : Nat → UInt8) (a v : Nat) : Nat → UInt8 :=
  fun x => if a ≤ x ∧ x < a + 4 then bytes32 v (x - a) else mem x

/-- `memset(ptr, 0, size)`. -/
def memset0 (mem : Nat → UInt8) (ptr size : Nat) : Nat → UInt8 :=
  fun x => if ptr ≤ x ∧ x < ptr + size then 0 else mem x

/-- The bytes are copied one after the other, upwards. -/
def memcpy (mem : Nat → UInt8) (dest src : Nat) : Nat → Nat → UInt8
  | 0 => mem
  | len + 1 => memcpy (fun x => if x = dest then mem src else mem x) (dest + 1) (src + 1) len

/-- The loop of `strncpy` at index `i`, with `n` characters left. -/
def strncpy_loop (src : Nat → UInt8) : Nat → Nat → (Nat → UInt8) → Nat → UInt8
  | 0, i, dest => fun x => if x = i then 0 else dest x
  | n + 1, i, dest =>
    if src i = 0 then fun x => if x = i then 0 else dest x
    else strncpy_loop src n (i + 1) fun x => if x = i then src i else dest x

def strncpy (dest src : Nat → UInt8) (count : Nat) : Nat → UInt8 := strncpy_loop src (count - 1) 0 dest

/-! ## State -/

/-- The fields of `struct process` that loading and forking use. -/
structure Process where
  id : Nat
  filename : Nat → UInt8
  task : Nat
  ptr : Nat
  stack : Nat
  size : Nat

def Process.zero : Process := ⟨0, fun _ => 0, 0, 0, 0, 0⟩

/-- `processes` is the table of process slots. `oom` is not in the code: it says that an allocation has
returned null. -/
structure Kernel where
  mem : Nat → UInt8
  heap : Heap
  tasks : TaskList
  process : Nat → Process
  processes : Nat → Nat
  oom : Bool

namespace Kernel

def setProcess (k : Kernel) (a : Nat) (p : Process) : Kernel :=
  { k with process := fun x => if x = a then p else k.process x }

/-! ## The block table in memory

`mem` does not have the bytes of the table. They matter where a task says which byte is meant. -/

/-- A byte of the block table. The heap is above the table. -/
def TableByte (k : Kernel) (x : Nat) : Prop :=
  PEACHOS_HEAP_TABLE_ADDRESS ≤ x ∧ x < PEACHOS_HEAP_TABLE_ADDRESS + k.heap.table.total ∧ x < k.heap.saddr

instance decidableTableByte (k : Kernel) (x : Nat) : Decidable (k.TableByte x) :=
  inferInstanceAs (Decidable (_ ∧ _ ∧ _))

/-- All of the memory, with the table at its address. -/
def memory (k : Kernel) : Nat → UInt8 := fun x =>
  if k.TableByte x then k.heap.table.entries (x - PEACHOS_HEAP_TABLE_ADDRESS) else k.mem x

def setMemory (k : Kernel) (memory : Nat → UInt8) : Kernel :=
  { k with
    mem := fun x => if k.TableByte x then k.mem x else memory x
    heap := { k.heap with table := { k.heap.table with
      entries := fun i =>
        if k.TableByte (PEACHOS_HEAP_TABLE_ADDRESS + i) then memory (PEACHOS_HEAP_TABLE_ADDRESS + i)
        else k.heap.table.entries i } } }

/-! ## The kernel heap -/

def kmalloc (k : Kernel) (size : Nat) : Nat × Kernel :=
  let res := heap_malloc k.heap size
  (res.1, { k with heap := res.2, oom := k.oom || res.1 = 0 })

def kzalloc (k : Kernel) (size : Nat) : Nat × Kernel :=
  let res := k.kmalloc size
  if res.1 = 0 then (0, res.2) else
  (res.1, { res.2 with mem := memset0 res.2.mem res.1 size })

def kfree (k : Kernel) (ptr : Nat) : Kernel := { k with heap := heap_free k.heap ptr }

end Kernel

end PeachOS
