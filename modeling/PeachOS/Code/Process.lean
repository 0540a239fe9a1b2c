import PeachOS.Code.Paging

/-!
# Processes, from `process.c`

With the parts of `task.c` that allocate and free the memory of a task.
-/

namespace PeachOS

/-- `sizeof(struct task)`. -/
def sizeof_task : Nat := 64

/-- `sizeof(struct process)`. -/
def sizeof_process : Nat := 5256

/-- What the file system does for `process_load_binary`: if the file is open, the result of `fstat` and the
size it reports, the result of `fread` and the bytes it leaves in the buffer. -/
structure ProgramFile where
  opened : Bool
  stat : Int
  filesize : Nat
  read : Int
  data : Nat → UInt8

/-- The buffer of `size` bytes at `ptr` is filled with `data`. -/
def put (mem : Nat → UInt8) (ptr size : Nat) (data : Nat → UInt8) : Nat → UInt8 :=
  fun x => if ptr ≤ x ∧ x < ptr + size then data (x - ptr) else mem x

namespace Kernel

/-! ## Tasks -/

def task_free (k : Kernel) (task : Nat) : Kernel :=
  let k := k.paging_free_4gb (k.tasks.task task).page_directory
  let k := { k with tasks := k.tasks.task_list_remove task }
  k.kfree task

/-- Returns the task or the error as a pointer. -/
def task_new (k : Kernel) (process : Nat) : Nat × Kernel :=
  let res := k.kzalloc sizeof_task
  let task := res.1
  if task = 0 then (u32 (-ENOMEM), res.2.task_free task) else
  let res := res.2.paging_new_4gb (PAGING_IS_PRESENT ||| PAGING_ACCESS_FROM_ALL)
  let init := task_init process res.1
  let k := { res.2 with tasks := res.2.tasks.set task init.2 }
  if init.1 < 0 then (u32 init.1, k.task_free task) else
  (task, { k with tasks := k.tasks.task_insert task })

/-! ## Mapping -/

/-- `PAGING_IS_PRESENT | PAGING_ACCESS_FROM_ALL | PAGING_IS_WRITEABLE`. -/
def user_flags : Nat := PAGING_IS_PRESENT ||| PAGING_ACCESS_FROM_ALL ||| PAGING_IS_WRITEABLE

/-- The result of `paging_map_to` is dropped. -/
def process_map_binary (k : Kernel) (process : Nat) : Int × Kernel :=
  let p := k.process process
  let res := paging_map_to k.mem (k.tasks.task p.task).page_directory PEACHOS_PROGRAM_VIRTUAL_ADDRESS
    p.ptr (paging_align_address (u32 (p.ptr + p.size))) user_flags
  (0, { k with mem := res.2 })

def process_map_memory (k : Kernel) (process : Nat) : Int × Kernel :=
  let res := k.process_map_binary process
  if res.1 < 0 then res else
  let k := res.2
  let p := k.process process
  let mapped := paging_map_to k.mem (k.tasks.task p.task).page_directory
    PEACHOS_PROGRAM_VIRTUAL_STACK_ADDRESS_END p.stack
    (paging_align_address (u32 (p.stack + PEACHOS_USER_PROGRAM_STACK_SIZE))) user_flags
  (res.1, { k with mem := mapped.2 })

/-! ## Loading -/

def process_get_free_slot_loop (k : Kernel) : Nat → Nat → Int
  | 0, _ => -EISTKN
  | n + 1, i => if k.processes i = 0 then i else process_get_free_slot_loop k n (i + 1)

def process_get_free_slot (k : Kernel) : Int := k.process_get_free_slot_loop PEACHOS_MAX_PROCESSES 0

def process_get (k : Kernel) (process_id : Int) : Nat :=
  if process_id < 0 ∨ process_id ≥ PEACHOS_MAX_PROCESSES then 0 else k.processes process_id.toNat

def process_load_binary (k : Kernel) (file : ProgramFile) (process : Nat) : Int × Kernel :=
  if !file.opened then (- EIO, k) else
  if file.stat ≠ 0 then (file.stat, k) else
  let res := k.kzalloc file.filesize
  let program_data_ptr := res.1
  if program_data_ptr = 0 then (-ENOMEM, res.2) else
  let k := { res.2 with mem := put res.2.mem program_data_ptr file.filesize file.data }
  if file.read ≠ 1 then (- EIO, k) else
  (0, k.setProcess process
    { k.process process with ptr := program_data_ptr, size := file.filesize })

def process_load_data (k : Kernel) (file : ProgramFile) (process : Nat) : Int × Kernel :=
  k.process_load_binary file process

/-- The label `out` of `process_load_for_slot`. -/
def process_load_out (k : Kernel) (res : Int) (process : Nat) : Kernel :=
  if res < 0 ∧ process ≠ 0 ∧ (k.process process).task ≠ 0 then k.task_free (k.process process).task else k

/-- From the task on. Returns the result, `*process` (0 if it is not set) and the kernel. -/
def process_load_task (k : Kernel) (process : Nat) (process_slot : Int) : Int × Nat × Kernel :=
  let res := k.task_new process
  let task := res.1
  let k := res.2
  if task = 0 then (0, 0, k) else
  let k := k.setProcess process { k.process process with task := task }
  let res := k.process_map_memory process
  if res.1 < 0 then (res.1, 0, res.2.process_load_out res.1 process) else
  let k := res.2
  (res.1, process, { k with
    processes := fun i => if i = process_slot.toNat then process else k.processes i })

/-- `uninit` is the value of the variable `_process` before it is set. -/
def process_load_for_slot (k : Kernel) (file : ProgramFile) (filename : Nat → UInt8)
    (process_slot : Int) (uninit : Nat) : Int × Nat × Kernel :=
  if k.process_get process_slot ≠ 0 then (-EISTKN, 0, k.process_load_out (-EISTKN) uninit) else
  let res := k.kzalloc sizeof_process
  let process := res.1
  if process = 0 then (-ENOMEM, 0, res.2.process_load_out (-ENOMEM) process) else
  let k := res.2.setProcess process .zero
  let res := k.process_load_data file process
  if res.1 < 0 then (res.1, 0, res.2.process_load_out res.1 process) else
  let res := res.2.kzalloc PEACHOS_USER_PROGRAM_STACK_SIZE
  let program_stack_ptr := res.1
  if program_stack_ptr = 0 then (-ENOMEM, 0, res.2.process_load_out (-ENOMEM) process) else
  let p := res.2.process process
  let k := res.2.setProcess process { p with
    filename := strncpy p.filename filename PEACHOS_MAX_PATH
    stack := program_stack_ptr
    id := u16 process_slot }
  k.process_load_task process process_slot

def process_load (k : Kernel) (file : ProgramFile) (filename : Nat → UInt8) (uninit : Nat) :
    Int × Nat × Kernel :=
  let process_slot := k.process_get_free_slot
  if process_slot < 0 then (-EISTKN, 0, k) else
  k.process_load_for_slot file filename process_slot uninit

def process_free (k : Kernel) (process : Nat) : Kernel :=
  if process = 0 then k else
  let k := k.task_free (k.process process).task
  let k := k.kfree (k.process process).ptr
  let k := k.kfree (k.process process).stack
  let k := { k with processes := fun i => if i = (k.process process).id then 0 else k.processes i }
  k.kfree process

/-! ## Forking -/

/-- The end of `process_fork`: `page_directory` is what `paging_copy_4gb` returned. Returns the result,
`*child_out` (0 if it is not set) and the kernel. -/
def process_fork_finish (k : Kernel) (parent child slot child_task page_directory : Nat) :
    Int × Nat × Kernel :=
  let k := { k with
    tasks := k.tasks.set child_task
      { k.tasks.task child_task with page_directory := page_directory } }
  if page_directory = 0 then (-ENOMEM, 0, k) else
  let registers := { (k.tasks.task (k.process parent).task).registers with eax := 0 }
  let k := { k with
    tasks := k.tasks.set child_task { k.tasks.task child_task with registers := registers }
    processes := fun i => if i = slot then child else k.processes i }
  (0, child, k)

/-- The page directory of the child: the one from `task_new` is freed, the one of the parent is copied. -/
def process_fork_directory (k : Kernel) (parent child slot child_task : Nat) : Int × Nat × Kernel :=
  let k := k.setProcess child { k.process child with task := child_task }
  let k := k.paging_free_4gb (k.tasks.task child_task).page_directory
  let res := k.paging_copy_4gb (k.tasks.task (k.process parent).task).page_directory
  res.2.process_fork_finish parent child slot child_task res.1

/-- From the task of the child on. -/
def process_fork_task (k : Kernel) (parent child slot : Nat) : Int × Nat × Kernel :=
  let res := k.task_new child
  if res.1 = 0 then (0, 0, res.2) else
  res.2.process_fork_directory parent child slot res.1

/-- From the stack of the child on. -/
def process_fork_stack (k : Kernel) (parent child slot : Nat) : Int × Nat × Kernel :=
  let res := k.kzalloc PEACHOS_USER_PROGRAM_STACK_SIZE
  let stack := res.1
  let k := res.2.setProcess child { res.2.process child with stack := stack }
  if stack = 0 then (-ENOMEM, 0, k) else
  let k := { k with mem := memcpy k.mem stack (k.process parent).stack PEACHOS_USER_PROGRAM_STACK_SIZE }
  let p := k.process child
  let k := k.setProcess child { p with
    filename := strncpy p.filename (k.process parent).filename PEACHOS_MAX_PATH
    id := u16 slot }
  k.process_fork_task parent child slot

/-- From the program of the child on. -/
def process_fork_memory (k : Kernel) (parent child slot : Nat) : Int × Nat × Kernel :=
  let size := (k.process parent).size
  let res := k.kzalloc size
  let ptr := res.1
  let k := res.2.setProcess child { res.2.process child with ptr := ptr }
  if ptr = 0 then (-ENOMEM, 0, k) else
  let k := { k with mem := memcpy k.mem ptr (k.process parent).ptr size }
  let k := k.setProcess child { k.process child with size := size }
  k.process_fork_stack parent child slot

def process_fork (k : Kernel) (parent : Nat) : Int × Nat × Kernel :=
  let slot := k.process_get_free_slot
  if slot < 0 then (-EISTKN, 0, k) else
  let res := k.kzalloc sizeof_process
  let child := res.1
  if child = 0 then (-ENOMEM, 0, res.2) else
  (res.2.setProcess child .zero).process_fork_memory parent child slot.toNat

end Kernel

end PeachOS
