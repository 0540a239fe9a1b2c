import PeachOS.Code.Kernel

/-!
# Page directories, from `paging.c`

A `struct paging_4gb_chunk` is one pointer to a directory of 1024 entries, and each entry leads to a page
table of 1024 entries. All of them are in memory.
-/

namespace PeachOS

def PAGING_TOTAL_ENTRIES_PER_TABLE : Nat := 1024
def PAGING_PAGE_SIZE : Nat := 4096
def PAGING_ACCESS_FROM_ALL : Nat := 4
def PAGING_IS_WRITEABLE : Nat := 2
def PAGING_IS_PRESENT : Nat := 1

def paging_is_aligned (addr : Nat) : Bool := addr % PAGING_PAGE_SIZE = 0

/-- The result, the directory index and the table index. The indexes stay 0 for an address in a page. -/
def paging_get_indexes (virtual_address : Nat) : Int × Nat × Nat :=
  if !paging_is_aligned virtual_address then (-EINVARG, 0, 0) else
  (0, virtual_address / (PAGING_TOTAL_ENTRIES_PER_TABLE * PAGING_PAGE_SIZE),
    virtual_address % (PAGING_TOTAL_ENTRIES_PER_TABLE * PAGING_PAGE_SIZE) / PAGING_PAGE_SIZE)

def paging_align_address (ptr : Nat) : Nat :=
  if ptr % PAGING_PAGE_SIZE ≠ 0 then u32 (ptr + PAGING_PAGE_SIZE - ptr % PAGING_PAGE_SIZE) else ptr

/-- The address of the page table in a directory entry. -/
def table_of (entry : Nat) : Nat := entry &&& 0xfffff000

def paging_set (mem : Nat → UInt8) (directory virt val : Nat) : Int × (Nat → UInt8) :=
  if !paging_is_aligned virt then (-EINVARG, mem) else
  let res := paging_get_indexes virt
  if res.1 < 0 then (res.1, mem) else
  let entry := read32 mem (directory + 4 * res.2.1)
  (0, write32 mem (table_of entry + 4 * res.2.2) val)

def paging_get (mem : Nat → UInt8) (directory virt : Nat) : Nat :=
  let res := paging_get_indexes virt
  let entry := read32 mem (directory + 4 * res.2.1)
  read32 mem (table_of entry + 4 * res.2.2)

def paging_map (mem : Nat → UInt8) (directory virt phys flags : Nat) : Int × (Nat → UInt8) :=
  if virt % PAGING_PAGE_SIZE ≠ 0 ∨ phys % PAGING_PAGE_SIZE ≠ 0 then (-EINVARG, mem) else
  paging_set mem (read32 mem directory) virt (phys ||| flags)

def paging_map_range (directory flags : Nat) :
    Nat → Nat → Nat → (Nat → UInt8) → Int × (Nat → UInt8)
  | 0, _, _, mem => (0, mem)
  | count + 1, virt, phys, mem =>
    let res := paging_map mem directory virt phys flags
    if res.1 < 0 then res else
    paging_map_range directory flags count (u32 (virt + PAGING_PAGE_SIZE)) (u32 (phys + PAGING_PAGE_SIZE))
      res.2

def paging_map_to (mem : Nat → UInt8) (directory virt phys phys_end flags : Nat) :
    Int × (Nat → UInt8) :=
  if virt % PAGING_PAGE_SIZE ≠ 0 then (-EINVARG, mem)
  else if phys % PAGING_PAGE_SIZE ≠ 0 then (-EINVARG, mem)
  else if phys_end % PAGING_PAGE_SIZE ≠ 0 then (-EINVARG, mem)
  else if phys_end < phys then (-EINVARG, mem)
  else
    let total_bytes := phys_end - phys
    let total_pages := total_bytes / PAGING_PAGE_SIZE
    paging_map_range directory flags total_pages virt phys mem

/-- The inner loop of `paging_new_4gb`, from table entry `b` on. -/
def paging_new_table (entry : Nat) (offset : Int) (flags : Nat) :
    Nat → Nat → (Nat → UInt8) → Nat → UInt8
  | 0, _, mem => mem
  | n + 1, b, mem =>
    paging_new_table entry offset flags n (b + 1)
      (write32 mem (entry + 4 * b) (u32 (offset + b * PAGING_PAGE_SIZE) ||| flags))

namespace Kernel

/-- The outer loop, from directory entry `i` on. -/
def paging_new_loop (directory flags : Nat) : Nat → Nat → Int → Kernel → Kernel
  | 0, _, _, k => k
  | n + 1, i, offset, k =>
    let res := k.kzalloc (4 * PAGING_TOTAL_ENTRIES_PER_TABLE)
    let entry := res.1
    let mem := paging_new_table entry offset flags PAGING_TOTAL_ENTRIES_PER_TABLE 0 res.2.mem
    let offset := i32 (offset + PAGING_TOTAL_ENTRIES_PER_TABLE * PAGING_PAGE_SIZE)
    let mem := write32 mem (directory + 4 * i) (entry ||| flags ||| PAGING_IS_WRITEABLE)
    paging_new_loop directory flags n (i + 1) offset { res.2 with mem := mem }

/-- None of the allocations is checked. Returns the chunk. -/
def paging_new_4gb (k : Kernel) (flags : Nat) : Nat × Kernel :=
  let res := k.kzalloc (4 * PAGING_TOTAL_ENTRIES_PER_TABLE)
  let directory := res.1
  let k := paging_new_loop directory flags PAGING_TOTAL_ENTRIES_PER_TABLE 0 0 res.2
  let res := k.kzalloc 4
  (res.1, { res.2 with mem := write32 res.2.mem res.1 directory })

def paging_free_loop (chunk : Nat) : Nat → Nat → Kernel → Kernel
  | 0, _, k => k
  | n + 1, i, k =>
    let entry := read32 k.mem (read32 k.mem chunk + 4 * i)
    paging_free_loop chunk n (i + 1) (k.kfree (table_of entry))

def paging_free_4gb (k : Kernel) (chunk : Nat) : Kernel :=
  let k := paging_free_loop chunk 1024 0 k
  let k := k.kfree (read32 k.mem chunk)
  k.kfree chunk

/-- The loop of `paging_copy_4gb`, from directory entry `i` on. It says if all tables could be copied. -/
def paging_copy_loop (src new_dir : Nat) : Nat → Nat → Kernel → Bool × Kernel
  | 0, _, k => (true, k)
  | n + 1, i, k =>
    let src_entry := read32 k.mem (read32 k.mem src + 4 * i)
    let src_table := table_of src_entry
    let res := k.kzalloc (4 * PAGING_TOTAL_ENTRIES_PER_TABLE)
    let new_table := res.1
    if new_table = 0 then (false, res.2) else
    let mem := memcpy res.2.mem new_table src_table (4 * PAGING_TOTAL_ENTRIES_PER_TABLE)
    let mem := write32 mem (new_dir + 4 * i) (new_table ||| (src_entry &&& 0x00000fff))
    paging_copy_loop src new_dir n (i + 1) { res.2 with mem := mem }

def paging_copy_4gb (k : Kernel) (src : Nat) : Nat × Kernel :=
  let res := k.kzalloc 4
  let chunk := res.1
  if chunk = 0 then (0, res.2) else
  let res := res.2.kzalloc (4 * PAGING_TOTAL_ENTRIES_PER_TABLE)
  let new_dir := res.1
  if new_dir = 0 then (0, res.2.kfree chunk) else
  let k := { res.2 with mem := write32 res.2.mem chunk new_dir }
  let res := paging_copy_loop src new_dir PAGING_TOTAL_ENTRIES_PER_TABLE 0 k
  if res.1 then (chunk, res.2) else (0, res.2)

end Kernel

end PeachOS
