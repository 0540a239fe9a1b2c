import PeachOS.Code.Process

/-!
# User mode

What the processor does with a load or a store of a process, through the page directory of its task, and
what it means that two processes do not see each other's stores.
-/

namespace PeachOS

/-- A store of one byte by a process in user mode. -/
structure UserStore where
  process : Nat
  va : Nat
  byte : UInt8

namespace Kernel

/-- The page directory that a process runs with. -/
def directory (k : Kernel) (process : Nat) : Nat :=
  read32 k.mem (k.tasks.task (k.process process).task).page_directory

/-- The physical address of a virtual one. -/
def translate (k : Kernel) (process va : Nat) : Nat :=
  table_of (paging_get k.mem (k.directory process) (va - va % 4096)) + va % 4096

/-- The entry of the directory and the entry of the table both have the flags. -/
def Allowed (k : Kernel) (process va flags : Nat) : Prop :=
  read32 k.mem (k.directory process + 4 * (va / 4194304)) &&& flags = flags ∧
    paging_get k.mem (k.directory process) (va - va % 4096) &&& flags = flags

instance (k : Kernel) (process va flags : Nat) : Decidable (k.Allowed process va flags) :=
  inferInstanceAs (Decidable (_ ∧ _))

/-- `none` is a page fault. -/
def userLoad (k : Kernel) (process va : Nat) : Option UInt8 :=
  if k.Allowed process va 5 then some (k.mem (k.translate process va)) else none

/-- A store that is not allowed changes nothing. -/
def userStore (k : Kernel) (s : UserStore) : Kernel :=
  if k.Allowed s.process s.va 7 then
    { k with mem := fun x => if x = k.translate s.process s.va then s.byte else k.mem x }
  else k

/-- The program region and the stack region of a process. -/
def InRegions (k : Kernel) (process va : Nat) : Prop :=
  (PEACHOS_PROGRAM_VIRTUAL_ADDRESS ≤ va ∧
      va < PEACHOS_PROGRAM_VIRTUAL_ADDRESS + (k.process process).size) ∨
    (PEACHOS_PROGRAM_VIRTUAL_STACK_ADDRESS_END ≤ va ∧ va < PEACHOS_PROGRAM_VIRTUAL_STACK_ADDRESS_START)

/-- Each page of the two regions is mapped to the corresponding page of the process. -/
def MapsOwnPages (k : Kernel) (process : Nat) : Prop :=
  (∀ i, i * 4096 < (k.process process).size →
    table_of (paging_get k.mem (k.directory process) (PEACHOS_PROGRAM_VIRTUAL_ADDRESS + i * 4096)) =
      (k.process process).ptr + i * 4096) ∧
  ∀ i, i * 4096 < PEACHOS_USER_PROGRAM_STACK_SIZE →
    table_of (paging_get k.mem (k.directory process)
      (PEACHOS_PROGRAM_VIRTUAL_STACK_ADDRESS_END + i * 4096)) = (k.process process).stack + i * 4096

/-- However the two processes store to their regions, each of them reads what it would read without the
stores of the other. -/
def Isolated (k : Kernel) (parent child : Nat) : Prop :=
  ∀ stores : List UserStore,
    (∀ s ∈ stores, (s.process = parent ∨ s.process = child) ∧ k.InRegions s.process s.va) →
    ∀ process, process = parent ∨ process = child → ∀ va, k.InRegions process va →
      (stores.foldl userStore k).userLoad process va =
        ((stores.filter fun s => s.process = process).foldl userStore k).userLoad process va

end Kernel

end PeachOS
