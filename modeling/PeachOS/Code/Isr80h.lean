import PeachOS.Code.File
import PeachOS.Code.Process

/-!
# System calls with a buffer of the caller, from `task.c`, `isr80h/io.c` and `isr80h/process.c`

The kernel runs with its own page directory, where every address is its physical address. Only while it copies to or
from a task it runs with the directory of the task. The arguments that the calls take from the stack of the task are
parameters here. What `terminal_writechar` puts on the screen is left out.
-/

namespace PeachOS

/-- A load or a store of the kernel through a page directory. `CR0.WP` is not set, so the kernel may write to pages
that are read-only for the task. `none` is a page fault. No handler mends it, so the instruction is tried forever. -/
def page_walk (mem : Nat → UInt8) (directory virt : Nat) : Option Nat :=
  let entry := read32 mem (directory + 4 * (virt / 4194304))
  let page := read32 mem (table_of entry + 4 * (virt % 4194304 / 4096))
  if entry &&& PAGING_IS_PRESENT = 0 ∨ page &&& PAGING_IS_PRESENT = 0 then none
  else some (table_of page + virt % 4096)

/-- `memcpy` with a page directory. -/
def memcpy_paged (directory : Nat) : Nat → Nat → Nat → (Nat → UInt8) → Option (Nat → UInt8)
  | 0, _, _, mem => some mem
  | len + 1, dest, src, mem => do
    let s ← page_walk mem directory src
    let d ← page_walk mem directory dest
    memcpy_paged directory len (u32 (dest + 1)) (u32 (src + 1)) fun x => if x = d then mem s else mem x

/-- The kernel's own page directory. -/
def kernel_walk (_ : Nat → UInt8) (address : Nat) : Option Nat := some address

/-- The loop of `strncpy` with a page directory, at index `i` with `n` characters left. -/
def strncpy_walk (walk : (Nat → UInt8) → Nat → Option Nat) (dest src : Nat) :
    Nat → Nat → (Nat → UInt8) → Option (Nat → UInt8)
  | 0, i, mem => do
    let d ← walk mem (u32 (dest + i))
    some fun x => if x = d then 0 else mem x
  | n + 1, i, mem => do
    let s ← walk mem (u32 (src + i))
    let d ← walk mem (u32 (dest + i))
    if mem s = 0 then some fun x => if x = d then 0 else mem x
    else strncpy_walk walk dest src n (i + 1) fun x => if x = d then mem s else mem x

/-- The memory after a function has written to a buffer at `ptr`. `data` is the memory from `ptr` on. -/
def written (mem : Nat → UInt8) (ptr : Nat) (data : Nat → UInt8) : Nat → UInt8 :=
  fun x => if ptr ≤ x then data (x - ptr) else mem x

/-- `freaddir`. Returns the result and the memory at `buf`. -/
def Vfs.freaddir (s : Vfs) (index : Int) (buf : Nat → UInt8) (buf_size : Nat) : Int × (Nat → UInt8) :=
  if !s.filesystem then (- EIO, buf) else fat16_readdir s.vol.priv index buf buf_size

/-! ## The line that is typed

`keys n` is what `keyboard_pop` returns when it is called for the `n`-th time. The loops wait for keys as long as it
takes, and `none` says that they still wait. -/

/-- The loop that skips line ends. Returns the first other character and the number of the next one. -/
def readline_drain (keys : Nat → UInt8) : Nat → Nat → Option (UInt8 × Nat)
  | 0, _ => none
  | fuel + 1, n =>
    if keys n = 13 ∨ keys n = 10 then readline_drain keys fuel (n + 1) else some (keys n, n + 1)

/-- The loop with `i` characters in the buffer. Returns the last `i` and the memory. -/
def readline_loop (keys : Nat → UInt8) (max : Int) (kbuf : Nat) :
    Nat → Nat → Nat → (Nat → UInt8) → Option (Nat × (Nat → UInt8))
  | 0, _, _, _ => none
  | fuel + 1, n, i, mem =>
    if ¬ (i : Int) < max - 1 then some (i, mem) else
    let c := keys n
    if c = 0 then readline_loop keys max kbuf fuel (n + 1) i mem
    else if c = 8 then readline_loop keys max kbuf fuel (n + 1) (if i > 0 then i - 1 else i) mem
    else
      let mem := fun x => if x = kbuf + i then c else mem x
      if c = 10 ∨ c = 13 then some (i + 1, mem) else readline_loop keys max kbuf fuel (n + 1) (i + 1) mem

/-- Both loops. -/
def readline_keys (keys : Nat → UInt8) (max : Int) (kbuf fuel : Nat) (mem : Nat → UInt8) :
    Option (Nat × (Nat → UInt8)) := do
  let (c, n) ← readline_drain keys fuel 0
  if c ≠ 0 then readline_loop keys max kbuf fuel n 1 fun x => if x = kbuf then c else mem x
  else readline_loop keys max kbuf fuel n 0 mem

namespace Kernel

/-- `size` is positive in every call. -/
def copy_to_task (k : Kernel) (task user_virtual kernel_buf size : Nat) : Option (Int × Kernel) :=
  if size ≥ PAGING_PAGE_SIZE then some (-EINVARG, k) else
  let res := k.kzalloc size
  let tmp := res.1
  let k := res.2
  if tmp = 0 then some (-ENOMEM, k) else
  let mem := memcpy k.memory tmp kernel_buf size
  let chunk := (k.tasks.task task).page_directory
  let task_directory := read32 mem chunk
  let old_entry := paging_get mem task_directory tmp
  let mem := (paging_map mem chunk tmp tmp (PAGING_IS_WRITEABLE ||| PAGING_IS_PRESENT ||| PAGING_ACCESS_FROM_ALL)).2
  (memcpy_paged (read32 mem chunk) size user_virtual tmp mem).map fun mem =>
    let res := paging_set mem task_directory tmp old_entry
    (if res.1 < 0 then - EIO else res.1, (k.setMemory res.2).kfree tmp)

/-- `max` is positive in every call. -/
def copy_string_from_task (k : Kernel) (task virt phys max : Nat) : Option (Int × Kernel) :=
  if max ≥ PAGING_PAGE_SIZE then some (-EINVARG, k) else
  let res := k.kzalloc max
  let tmp := res.1
  let k := res.2
  if tmp = 0 then some (-ENOMEM, k) else
  let chunk := (k.tasks.task task).page_directory
  let mem := k.memory
  let task_directory := read32 mem chunk
  let old_entry := paging_get mem task_directory tmp
  let mem := (paging_map mem chunk tmp tmp (PAGING_IS_WRITEABLE ||| PAGING_IS_PRESENT ||| PAGING_ACCESS_FROM_ALL)).2
  let directory := read32 mem chunk
  (strncpy_walk (fun mem a => page_walk mem directory a) tmp virt (max - 1) 0 mem).bind fun mem =>
    let res := paging_set mem task_directory tmp old_entry
    if res.1 < 0 then some (- EIO, (k.setMemory res.2).kfree tmp) else
    (strncpy_walk kernel_walk phys tmp (max - 1) 0 res.2).map fun mem => (res.1, (k.setMemory mem).kfree tmp)

def isr80h_command3_read (k : Kernel) (s : Vfs) (task : Nat) (fd : Int) (user_buf : Nat) (count : Int) :
    Option (Int × Kernel) :=
  if count ≤ 0 ∨ count ≥ PAGING_PAGE_SIZE then some (-EINVARG, k) else
  let res := k.kzalloc count.toNat
  let kernel_buf := res.1
  let k := res.2
  if kernel_buf = 0 then some (-ENOMEM, k) else
  let read := s.fread (fun i => k.mem (kernel_buf + i)) 1 count.toNat fd
  let bytes_read := read.1
  let k := { k with mem := written k.mem kernel_buf read.2 }
  if bytes_read > 0 then
    (k.copy_to_task task user_buf kernel_buf bytes_read.toNat).map fun res =>
      (if res.1 < 0 then res.1 else bytes_read, res.2.kfree kernel_buf)
  else some (bytes_read, k.kfree kernel_buf)

def isr80h_command10_readdir (k : Kernel) (s : Vfs) (task : Nat) (index : Int) (user_buf : Nat) (buf_size : Int) :
    Option (Int × Kernel) :=
  if index < 0 ∨ buf_size ≤ 0 ∨ buf_size > 256 then some (-EINVARG, k) else
  let res := k.kzalloc buf_size.toNat
  let kernel_buf := res.1
  let k := res.2
  if kernel_buf = 0 then some (-ENOMEM, k) else
  let read := s.freaddir index (fun i => k.mem (kernel_buf + i)) buf_size.toNat
  let k := { k with mem := written k.mem kernel_buf read.2 }
  if read.1 > 0 then
    (k.copy_to_task task user_buf kernel_buf buf_size.toNat).map fun res =>
      (if res.1 < 0 then res.1 else read.1, res.2.kfree kernel_buf)
  else some (read.1, k.kfree kernel_buf)

/-- The result of `copy_to_task` is dropped. -/
def isr80h_command6_readline (k : Kernel) (keys : Nat → UInt8) (fuel task user_buf : Nat) (max : Int) :
    Option (Int × Kernel) :=
  if max ≤ 0 ∨ max > 512 then some (-1, k) else
  let res := k.kzalloc max.toNat
  let kbuf := res.1
  let k := res.2
  if kbuf = 0 then some (-1, k) else do
  let (i, mem) ← readline_keys keys max kbuf fuel k.mem
  let k := { k with mem := fun x => if x = kbuf + i then 0 else mem x }
  if i > 0 then (k.copy_to_task task user_buf kbuf (i + 1)).map fun res => ((i : Int), res.2.kfree kbuf)
  else some ((i : Int), k.kfree kbuf)

end Kernel

end PeachOS
