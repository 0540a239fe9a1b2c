import PeachOS.Code.Machine

/-!
# Tasks, from `task.c`

The task list is the three globals and the `struct task` at each address. Pointers are addresses, and
the null pointer is 0.
-/

namespace PeachOS

def PEACHOS_PROGRAM_VIRTUAL_ADDRESS : Nat := 0x400000
def PEACHOS_USER_PROGRAM_STACK_SIZE : Nat := 1024 * 16
def PEACHOS_PROGRAM_VIRTUAL_STACK_ADDRESS_START : Nat := 0x3FF000
def PEACHOS_PROGRAM_VIRTUAL_STACK_ADDRESS_END : Nat :=
  PEACHOS_PROGRAM_VIRTUAL_STACK_ADDRESS_START - PEACHOS_USER_PROGRAM_STACK_SIZE
def USER_DATA_SEGMENT : Nat := 0x23
def USER_CODE_SEGMENT : Nat := 0x1b

structure Registers where
  edi : Nat
  esi : Nat
  ebp : Nat
  ebx : Nat
  edx : Nat
  ecx : Nat
  eax : Nat
  ip : Nat
  cs : Nat
  flags : Nat
  esp : Nat
  ss : Nat
deriving DecidableEq

structure Task where
  page_directory : Nat
  registers : Registers
  process : Nat
  next : Nat
  prev : Nat
deriving DecidableEq

def Registers.zero : Registers := ⟨0, 0, 0, 0, 0, 0, 0, 0, 0, 0, 0, 0⟩

def Task.zero : Task := ⟨0, .zero, 0, 0, 0⟩

structure TaskList where
  task : Nat → Task
  task_head : Nat
  task_tail : Nat
  current_task : Nat

def TaskList.set (s : TaskList) (a : Nat) (t : Task) : TaskList :=
  { s with task := fun x => if x = a then t else s.task x }

/-- `page_directory` is what `paging_new_4gb` returned. Returns the result and the task. -/
def task_init (process page_directory : Nat) : Int × Task :=
  let task := { Task.zero with page_directory := page_directory }
  if page_directory = 0 then (- EIO, task) else
  (0, { task with
    registers := { task.registers with
      ip := PEACHOS_PROGRAM_VIRTUAL_ADDRESS
      ss := USER_DATA_SEGMENT
      cs := USER_CODE_SEGMENT
      esp := PEACHOS_PROGRAM_VIRTUAL_STACK_ADDRESS_START }
    process := process })

namespace TaskList

def task_get_next (s : TaskList) : Nat :=
  if (s.task s.current_task).next = 0 then s.task_head else (s.task s.current_task).next

def task_list_remove (s : TaskList) (task : Nat) : TaskList :=
  let s := if (s.task task).prev ≠ 0 then
      s.set (s.task task).prev { s.task (s.task task).prev with next := (s.task task).next }
    else s
  let s := if task = s.task_head then { s with task_head := (s.task task).next } else s
  let s := if task = s.task_tail then { s with task_tail := (s.task task).prev } else s
  if task = s.current_task then { s with current_task := s.task_get_next } else s

/-- The end of `task_new`, where a task goes into the list. -/
def task_insert (s : TaskList) (task : Nat) : TaskList :=
  if s.task_head = 0 then { s with task_head := task, task_tail := task, current_task := task } else
  let s := s.set s.task_tail { s.task s.task_tail with next := task }
  let s := s.set task { s.task task with prev := s.task_tail }
  { s with task_tail := task }

/-- `task_new` on the list: `task` is what `kzalloc` returned. A task that cannot be set up goes to
`task_free`, also the null pointer. Returns the task or the error as a pointer. -/
def task_new (s : TaskList) (task process page_directory : Nat) : Nat × TaskList :=
  if task = 0 then (u32 (-ENOMEM), s.task_list_remove task) else
  let res := task_init process page_directory
  let s := s.set task res.2
  if res.1 < 0 then (u32 res.1, s.task_list_remove task) else
  (task, s.task_insert task)

def task_switch (s : TaskList) (task : Nat) : TaskList := { s with current_task := task }

end TaskList

end PeachOS
