import PeachOS.Spec.TaskCopies
import PeachOS.Spec.UserBuffers

/-!
# The pages of the kernel

A system call runs on the stack below `tss.esp0` and with buffers of the kernel heap. It goes on with them when it
switches to the page directory of a task, so that directory has to map them to themselves.
-/

namespace PeachOS.Kernel

/-- The pages of a program of this size. -/
def ProgramPage (size va : Nat) : Prop :=
  PEACHOS_PROGRAM_VIRTUAL_ADDRESS ≤ va ∧ va < PEACHOS_PROGRAM_VIRTUAL_ADDRESS + pages size

def UserStackPage (va : Nat) : Prop :=
  PEACHOS_PROGRAM_VIRTUAL_STACK_ADDRESS_END ≤ va ∧ va < PEACHOS_PROGRAM_VIRTUAL_STACK_ADDRESS_START

/-- The directory of a process maps the interrupt stack, which has `depth` pages, and the kernel heap to themselves, and
the program is not in the pages of the user stack. -/
structure KeepsKernel (k : Kernel) (process depth : Nat) : Prop where
  stack : ∀ va, tss_esp0 - depth * PAGING_PAGE_SIZE ≤ va → va < tss_esp0 →
    k.userAddress (k.process process).task va = some va
  heap : ∀ va, PEACHOS_HEAP_ADDRESS ≤ va → va < PEACHOS_HEAP_ADDRESS + PEACHOS_HEAP_SIZE_BYTES →
    k.userAddress (k.process process).task va = some va
  apart : ∀ va, ProgramPage (k.process process).size va → ¬ UserStackPage va

/-- Where the program of a process that is loaded now is put. -/
def programBlock (k : Kernel) (size : Nat) : Nat := ((k.kzalloc sizeof_process).2.kzalloc size).1

end PeachOS.Kernel
