import PeachOS.Code.Kernel

/-!
# The process table, from `process.c` and `isr80h/process.c`

Forking and exiting as far as the table of processes goes. What the allocations of a fork return is an input
here.
-/

namespace PeachOS

/-- The fields of a `struct process` that go with the table. -/
structure ProcessEntry where
  id : Nat
  task : Nat
deriving DecidableEq

/-- `eax` is the saved `eax` of the task at an address. -/
structure ProcessTable where
  process : Nat → ProcessEntry
  processes : Nat → Nat
  eax : Nat → Nat

/-- The results of the allocations of `process_fork`, of `task_new` and of `paging_copy_4gb`. -/
structure ForkMemory where
  child : Nat
  ptr : Nat
  stack : Nat
  child_task : Nat
  page_directory : Nat

namespace ProcessTable

def setProcess (t : ProcessTable) (a : Nat) (p : ProcessEntry) : ProcessTable :=
  { t with process := fun x => if x = a then p else t.process x }

def process_get_free_slot_loop (t : ProcessTable) : Nat → Nat → Int
  | 0, _ => -EISTKN
  | n + 1, i => if t.processes i = 0 then i else process_get_free_slot_loop t n (i + 1)

def process_get_free_slot (t : ProcessTable) : Int :=
  t.process_get_free_slot_loop PEACHOS_MAX_PROCESSES 0

def process_get (t : ProcessTable) (process_id : Int) : Nat :=
  if process_id < 0 ∨ process_id ≥ PEACHOS_MAX_PROCESSES then 0 else t.processes process_id.toNat

/-- The end of `process_fork`. Returns the result, `*child_out` (0 if it is not set) and the table. -/
def process_fork_finish (t : ProcessTable) (child slot : Nat) (memory : ForkMemory) :
    Int × Nat × ProcessTable :=
  if memory.page_directory = 0 then (-ENOMEM, 0, t) else
  (0, child, { t with
    eax := fun x => if x = memory.child_task then 0 else t.eax x
    processes := fun i => if i = slot then child else t.processes i })

/-- From the task of the child on. -/
def process_fork_task (t : ProcessTable) (child slot : Nat) (memory : ForkMemory) :
    Int × Nat × ProcessTable :=
  if memory.child_task = 0 then (0, 0, t) else
  let t := t.setProcess child { t.process child with task := memory.child_task }
  t.process_fork_finish child slot memory

def process_fork (t : ProcessTable) (memory : ForkMemory) : Int × Nat × ProcessTable :=
  let slot := t.process_get_free_slot
  if slot < 0 then (-EISTKN, 0, t) else
  let child := memory.child
  if child = 0 then (-ENOMEM, 0, t) else
  let t := t.setProcess child ⟨0, 0⟩
  if memory.ptr = 0 then (-ENOMEM, 0, t) else
  if memory.stack = 0 then (-ENOMEM, 0, t) else
  let t := t.setProcess child { t.process child with id := u16 slot }
  t.process_fork_task child slot.toNat memory

def process_free (t : ProcessTable) (process : Nat) : ProcessTable :=
  if process = 0 then t else
  { t with processes := fun i => if i = (t.process process).id then 0 else t.processes i }

/-! ## System calls -/

/-- Returns the value that the parent gets. -/
def isr80h_command4_fork (t : ProcessTable) (memory : ForkMemory) : Int × ProcessTable :=
  let (res, child, t) := t.process_fork memory
  if res < 0 then (res, t) else ((t.process child).id, t)

/-- `process` is `task_current()->process`. -/
def isr80h_command5_exit (t : ProcessTable) (process : Nat) : ProcessTable := t.process_free process

def isr80h_command11_wait (t : ProcessTable) (pid : Int) : Int := if t.process_get pid ≠ 0 then 1 else 0

end ProcessTable

end PeachOS
