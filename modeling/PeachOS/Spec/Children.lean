import PeachOS.Code.ProcessTable

/-!
# Parents and children

Processes fork, exit and wait in any order. Each live process has the children that it forked, and every one
of them has exited or not.
-/

namespace PeachOS

structure Child where
  parent : Nat
  pid : Int
  child : Nat
  exited : Bool
deriving DecidableEq

/-- The children of the live processes, besides the state of the code. -/
structure ProcessSys where
  table : ProcessTable
  children : List Child

inductive ProcessCall
  | fork (parent : Nat) (memory : ForkMemory)
  | exit (process : Nat)
  | wait (process : Nat) (pid : Int)

/-- What the exit of a process means for a child. -/
def Child.exit (process : Nat) (c : Child) : Child :=
  if c.child = process then { c with exited := true } else c

namespace ProcessSys

/-- An exit also ends the interest of the process in its own children. -/
def step (s : ProcessSys) : ProcessCall → ProcessSys
  | .fork parent memory =>
    let res := s.table.isr80h_command4_fork memory
    { table := res.2
      children := if 0 ≤ res.1 then
          ⟨parent, res.1, (s.table.process_fork memory).2.1, false⟩ :: s.children
        else s.children }
  | .exit process =>
    { table := s.table.isr80h_command5_exit process
      children := (s.children.filter fun c => c.parent ≠ process).map (Child.exit process) }
  | .wait _ _ => s

def start (t : ProcessTable) : ProcessSys := { table := t, children := [] }

def Live (s : ProcessSys) (process : Nat) : Prop :=
  process ≠ 0 ∧ ∃ i < PEACHOS_MAX_PROCESSES, s.table.processes i = process

/-- Calls are made by live processes, `kzalloc` returns memory that no live process has, and `task_new`
returns a task or an error. -/
def CallOk (s : ProcessSys) : ProcessCall → Prop
  | .fork parent memory => s.Live parent ∧ ¬ s.Live memory.child ∧ memory.child_task ≠ 0
  | .exit process => s.Live process
  | .wait process _ => s.Live process

/-- `sys_wait` returns 1 for a child that has not exited and 0 for one that has. -/
def Tracks (s : ProcessSys) : Prop :=
  ∀ c ∈ s.children, s.table.isr80h_command11_wait c.pid = if c.exited then 0 else 1

/-- A fork does not take the slot of a child that has exited and whose parent is alive. -/
def NoReuse (s : ProcessSys) : ProcessCall → Prop
  | .fork _ _ => ∀ c ∈ s.children, c.exited = true → c.pid ≠ s.table.process_get_free_slot
  | _ => True

def Succeeds (s : ProcessSys) : ProcessCall → Prop
  | .fork _ memory => 0 ≤ (s.table.isr80h_command4_fork memory).1
  | _ => True

/-- A fork that succeeds returns a positive number to the parent and leaves 0 to the child, and the child and
no other process is found under the number. -/
def TellsApart (s : ProcessSys) : ProcessCall → Prop
  | .fork _ memory =>
    let res := s.table.isr80h_command4_fork memory
    let child := (s.table.process_fork memory).2.1
    0 ≤ res.1 → 0 < res.1 ∧ res.2.eax (res.2.process child).task = 0 ∧
      child ≠ 0 ∧ ∀ i, res.2.process_get i = child ↔ i = res.1
  | _ => True

/-- Slot 0 is taken when a process forks. -/
def SlotZeroTaken (s : ProcessSys) : ProcessCall → Prop
  | .fork _ _ => s.table.processes 0 ≠ 0
  | _ => True

end ProcessSys

/-- One process, in slot 0. -/
def ProcessTable.Booted (t : ProcessTable) : Prop :=
  t.processes 0 ≠ 0 ∧ (t.process (t.processes 0)).id = 0 ∧
    ∀ i < PEACHOS_MAX_PROCESSES, i ≠ 0 → t.processes i = 0

end PeachOS
