import PeachOS.Heap.Outstanding
import PeachOS.Process.Load
import Mathlib.Data.Finset.Card

/-!
# What a process leaves behind

A process that ends gives back what it took, and one that could not be created leaves nothing. What there is to leave
behind is in the heap table, in the table of processes and in the list of tasks.
-/

namespace PeachOS

namespace Kernel

/-- How many blocks of the heap are free. -/
def freeBlocks (k : Kernel) : Nat :=
  ((Finset.range k.heap.table.total).filter fun i => k.heap.table.Free i).card

/-- Every allocation of `process_fork` finds free blocks in a row: the record, the program, the stack and then, block by
block, the task with its directory. That directory is given back before the one of the parent is copied. -/
def ForkFits (k : Kernel) (parent : Nat) : Prop :=
  let k1 := (k.kzalloc sizeof_process).2
  let k2 := (k1.kzalloc (k.process parent).size).2
  let k3 := (k2.kzalloc PEACHOS_USER_PROGRAM_STACK_SIZE).2
  k.heap.table.HasRun (HeapState.needed sizeof_process) ∧
    k1.heap.table.HasRun (HeapState.needed (k.process parent).size) ∧
    k2.heap.table.HasRun (HeapState.needed PEACHOS_USER_PROGRAM_STACK_SIZE) ∧ 1027 ≤ k3.freeBlocks

/-- The heap table, the outstanding allocations and the table of processes are as they were. -/
structure Restored (k k' : Kernel) : Prop where
  total : k'.heap.table.total = k.heap.table.total
  entries : ∀ i < k.heap.table.total, k'.heap.table.entries i = k.heap.table.entries i
  outstanding : ∀ runs, Outstanding k'.heap.table runs ↔ Outstanding k.heap.table runs
  processes : k'.processes = k.processes

/-! ## Creating a process -/

/-- The process table, the task list with the current task, and the block table are as they were. -/
structure Untouched (k k' : Kernel) : Prop where
  processes : k'.processes = k.processes
  tasks : k'.tasks = k.tasks
  total : k'.heap.table.total = k.heap.table.total
  entries : ∀ i < k.heap.table.total, k'.heap.table.entries i = k.heap.table.entries i

end Kernel

end PeachOS
