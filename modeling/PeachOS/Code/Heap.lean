import PeachOS.Code.Machine

/-!
# The heap, from `heap.c` and `kheap.c`

A heap hands out runs of blocks of 4096 bytes. Its table has one byte for each block. Addresses are
32-bit numbers, and the null pointer is 0.
-/

namespace PeachOS

def PEACHOS_HEAP_BLOCK_SIZE : Nat := 4096

def HEAP_BLOCK_TABLE_ENTRY_TAKEN : UInt8 := 0x01
def HEAP_BLOCK_TABLE_ENTRY_FREE : UInt8 := 0x00
def HEAP_BLOCK_HAS_NEXT : UInt8 := 0x80
def HEAP_BLOCK_IS_FIRST : UInt8 := 0x40

/-- `entries` is the memory from the first entry on, past the end of the table included, and `below` the memory
before it: `below n` is `entries[-1 - n]`. `written` is not in the code: it has the index of every write to
`entries`, the last one first. -/
structure HeapTable where
  entries : Nat → UInt8
  below : Nat → UInt8
  total : Nat
  written : List Nat

structure Heap where
  table : HeapTable
  saddr : Nat

/-- `table->entries[i] = entry`. -/
def HeapTable.set (table : HeapTable) (i : Nat) (entry : UInt8) : HeapTable :=
  { table with
    entries := fun j => if j = i then entry else table.entries j
    written := i :: table.written }

/-- `table->entries[-1 - n] = entry`. -/
def HeapTable.setBelow (table : HeapTable) (n : Nat) (entry : UInt8) : HeapTable :=
  { table with below := fun j => if j = n then entry else table.below j }

def heap_validate_table (ptr end_ : Nat) (table : HeapTable) : Int :=
  let table_size := u32 (end_ - ptr)
  let total_blocks := table_size / PEACHOS_HEAP_BLOCK_SIZE
  if table.total ≠ total_blocks then -EINVARG else 0

def heap_validate_alignment (ptr : Nat) : Bool := ptr % PEACHOS_HEAP_BLOCK_SIZE = 0

/-- `memset(table->entries, HEAP_BLOCK_TABLE_ENTRY_FREE, table->total)`. -/
def HeapTable.clear (table : HeapTable) : HeapTable :=
  { table with
    entries := fun i => if i < table.total then HEAP_BLOCK_TABLE_ENTRY_FREE else table.entries i
    written := (List.range table.total).reverse ++ table.written }

/-- Returns the result and the heap. -/
def heap_create (heap : Heap) (ptr end_ : Nat) (table : HeapTable) : Int × Heap :=
  if !heap_validate_alignment ptr || !heap_validate_alignment end_ then (-EINVARG, heap) else
  let heap : Heap := { table := table, saddr := ptr }
  let res := heap_validate_table ptr end_ table
  if res < 0 then (res, heap) else
  (res, { heap with table := table.clear })

def heap_align_value_to_upper (val : Nat) : Nat :=
  if val % PEACHOS_HEAP_BLOCK_SIZE = 0 then val
  else u32 (val - val % PEACHOS_HEAP_BLOCK_SIZE + PEACHOS_HEAP_BLOCK_SIZE : Nat)

def heap_get_entry_type (entry : UInt8) : UInt8 := entry &&& 0x0f

/-- The loop at block `i`, with `n` blocks left. `bs` is the first block of the current free run, and
`bc` counts its blocks. -/
def heap_get_start_block_loop (table : HeapTable) (total_blocks : Nat) : Nat → Nat → Nat → Int → Int
  | 0, _, _, bs => bs
  | n + 1, i, bc, bs =>
    if heap_get_entry_type (table.entries i) ≠ HEAP_BLOCK_TABLE_ENTRY_FREE then
      heap_get_start_block_loop table total_blocks n (i + 1) 0 (-1)
    else
      let bs := if bs = -1 then (i : Int) else bs
      if bc + 1 = total_blocks then bs
      else heap_get_start_block_loop table total_blocks n (i + 1) (bc + 1) bs

def heap_get_start_block (heap : Heap) (total_blocks : Nat) : Int :=
  let bs := heap_get_start_block_loop heap.table total_blocks heap.table.total 0 0 (-1)
  if bs = -1 then -ENOMEM else bs

def heap_block_to_address (heap : Heap) (block : Int) : Nat :=
  u32 (heap.saddr + block * PEACHOS_HEAP_BLOCK_SIZE)

/-- The loop at block `i`, with `n` blocks left up to `end_block`. -/
def heap_mark_blocks_taken_loop (end_block : Int) : Nat → Nat → UInt8 → HeapTable → HeapTable
  | 0, _, _, table => table
  | n + 1, i, entry, table =>
    let table := table.set i entry
    let entry := HEAP_BLOCK_TABLE_ENTRY_TAKEN
    let entry := if (i : Int) ≠ end_block - 1 then entry ||| HEAP_BLOCK_HAS_NEXT else entry
    heap_mark_blocks_taken_loop end_block n (i + 1) entry table

def heap_mark_blocks_taken (heap : Heap) (start_block total_blocks : Nat) : Heap :=
  let end_block : Int := start_block + total_blocks - 1
  let entry := HEAP_BLOCK_TABLE_ENTRY_TAKEN ||| HEAP_BLOCK_IS_FIRST
  let entry := if total_blocks > 1 then entry ||| HEAP_BLOCK_HAS_NEXT else entry
  { heap with
    table := heap_mark_blocks_taken_loop end_block total_blocks start_block entry heap.table }

/-- Returns the address and the heap. -/
def heap_malloc_blocks (heap : Heap) (total_blocks : Nat) : Nat × Heap :=
  let start_block := heap_get_start_block heap total_blocks
  if start_block < 0 then (0, heap) else
  (heap_block_to_address heap start_block,
    heap_mark_blocks_taken heap start_block.toNat total_blocks)

/-- The loop at block `i`, with `n` blocks left in the table. -/
def heap_mark_blocks_free_loop : Nat → Nat → HeapTable → HeapTable
  | 0, _, table => table
  | n + 1, i, table =>
    let entry := table.entries i
    let table := table.set i HEAP_BLOCK_TABLE_ENTRY_FREE
    if entry &&& HEAP_BLOCK_HAS_NEXT = 0 then table
    else heap_mark_blocks_free_loop n (i + 1) table

/-- The loop at block `-n`, in the memory before the table. -/
def heap_mark_blocks_free_below : Nat → HeapTable → HeapTable
  | 0, table => heap_mark_blocks_free_loop table.total 0 table
  | n + 1, table =>
    let entry := table.below n
    let table := table.setBelow n HEAP_BLOCK_TABLE_ENTRY_FREE
    if entry &&& HEAP_BLOCK_HAS_NEXT = 0 then table
    else heap_mark_blocks_free_below n table

/-- The block of an address below the heap is negative. -/
def heap_mark_blocks_free (heap : Heap) (starting_block : Int) : Heap :=
  { heap with
    table :=
      if starting_block < 0 then heap_mark_blocks_free_below (-starting_block).toNat heap.table
      else heap_mark_blocks_free_loop (heap.table.total - starting_block).toNat starting_block.toNat heap.table }

def heap_address_to_block (heap : Heap) (address : Nat) : Int :=
  (i32 (address - heap.saddr)).tdiv PEACHOS_HEAP_BLOCK_SIZE

/-- The number of blocks for a request. -/
def heap_total_blocks (size : Nat) : Nat := heap_align_value_to_upper size / PEACHOS_HEAP_BLOCK_SIZE

def heap_malloc (heap : Heap) (size : Nat) : Nat × Heap :=
  heap_malloc_blocks heap (heap_total_blocks size)

def heap_free (heap : Heap) (ptr : Nat) : Heap :=
  heap_mark_blocks_free heap (heap_address_to_block heap ptr)

end PeachOS
