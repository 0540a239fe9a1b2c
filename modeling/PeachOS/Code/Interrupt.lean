import PeachOS.Code.Kernel

/-!
# The timer interrupt, from `idt.asm`, `idt.c`, `task.asm` and `task.c`

The assembly is lists of instructions, which run on a processor with a memory of words. A `struct task` is a
record at its address, and its registers are the words from offset 4 on. The stack is below the heap, where the
tasks are.
-/

namespace PeachOS

inductive Reg
  | eax | ecx | edx | ebx | esp | ebp | esi | edi
deriving DecidableEq

inductive Seg
  | ds | es | fs | gs
deriving DecidableEq

structure Cpu where
  reg : Reg → Nat
  eip : Nat
  cs : Nat
  eflags : Nat
  ss : Nat
  seg : Seg → Nat

structure Machine where
  cpu : Cpu
  mem : Nat → Nat
  tasks : TaskList

/-- The registers that a task has in user mode. -/
def Cpu.registers (cpu : Cpu) : Registers where
  edi := cpu.reg .edi
  esi := cpu.reg .esi
  ebp := cpu.reg .ebp
  ebx := cpu.reg .ebx
  edx := cpu.reg .edx
  ecx := cpu.reg .ecx
  eax := cpu.reg .eax
  ip := cpu.eip
  cs := cpu.cs
  flags := cpu.eflags
  esp := cpu.reg .esp
  ss := cpu.ss

/-- The word at an offset in a `struct registers`. -/
def Registers.word (r : Registers) : Nat → Nat
  | 0 => r.edi
  | 4 => r.esi
  | 8 => r.ebp
  | 12 => r.ebx
  | 16 => r.edx
  | 20 => r.ecx
  | 24 => r.eax
  | 28 => r.ip
  | 32 => r.cs
  | 36 => r.flags
  | 40 => r.esp
  | 44 => r.ss
  | _ => 0

/-- Tasks are in pages of the heap of their own. -/
def Machine.word (m : Machine) (a : Nat) : Nat :=
  if PEACHOS_HEAP_ADDRESS ≤ a ∧ 4 ≤ a % 4096 ∧ a % 4096 < 52 then
    (m.tasks.task (a - a % 4096)).registers.word (a % 4096 - 4)
  else m.mem a

/-! ## Instructions -/

inductive Instr
  | pushad
  | popad
  | push (r : Reg)
  | push_mem (r : Reg) (off : Nat)
  | pop (r : Reg)
  | pushf
  | mov (d s : Reg)
  | load (d s : Reg) (off : Nat)
  | load_ax (s : Reg) (off : Nat)
  | mov_seg (s : Seg)
  | add (r : Reg) (imm : Nat)
  | or (r : Reg) (imm : Nat)
  | test (r : Reg)
  | call
  | ret
  | iret

namespace Machine

def setReg (m : Machine) (r : Reg) (v : Nat) : Machine :=
  { m with cpu := { m.cpu with reg := fun x => if x = r then v else m.cpu.reg x } }

def push (m : Machine) (v : Nat) : Machine :=
  { m.setReg .esp (m.cpu.reg .esp - 4) with
    mem := fun a => if a = m.cpu.reg .esp - 4 then v else m.mem a }

/-- The word at the top of the stack goes to a register. -/
def pop (m : Machine) (r : Reg) : Machine :=
  (m.setReg .esp (m.cpu.reg .esp + 4)).setReg r (m.word (m.cpu.reg .esp))

end Machine

/-- The flags after a `test` of a value with itself: CF and OF are cleared, PF, ZF and SF are set from the
value. -/
def test_flags (flags v : Nat) : Nat :=
  (flags &&& 0xFFFFF73A) ||| (if ((List.range 8).filter (v.testBit ·)).length % 2 = 0 then 0x04 else 0) |||
    (if v = 0 then 0x40 else 0) ||| (if v.testBit 31 then 0x80 else 0)

/-- `call` pushes the address that `ret` goes back to. Code is run in order, so the address does not matter. -/
def return_address : Nat := 0

def Machine.exec (m : Machine) : Instr → Machine
  | .pushad =>
    let esp := m.cpu.reg .esp
    [m.cpu.reg .eax, m.cpu.reg .ecx, m.cpu.reg .edx, m.cpu.reg .ebx, esp, m.cpu.reg .ebp, m.cpu.reg .esi,
      m.cpu.reg .edi].foldl push m
  | .popad =>
    -- the stack pointer in the frame is skipped
    let m := [Reg.edi, Reg.esi, Reg.ebp].foldl pop m
    let m := m.setReg .esp (m.cpu.reg .esp + 4)
    [Reg.ebx, Reg.edx, Reg.ecx, Reg.eax].foldl pop m
  | .push r => m.push (m.cpu.reg r)
  | .push_mem r off => m.push (m.word (m.cpu.reg r + off))
  | .pop r => m.pop r
  | .pushf => m.push m.cpu.eflags
  | .mov d s => m.setReg d (m.cpu.reg s)
  | .load d s off => m.setReg d (m.word (m.cpu.reg s + off))
  | .load_ax s off =>
    m.setReg .eax (m.cpu.reg .eax / 65536 * 65536 + m.word (m.cpu.reg s + off) % 65536)
  | .mov_seg s =>
    { m with cpu := { m.cpu with seg := fun x => if x = s then m.cpu.reg .eax % 65536 else m.cpu.seg x } }
  | .add r imm => m.setReg r (m.cpu.reg r + imm)
  | .or r imm => m.setReg r (m.cpu.reg r ||| imm)
  | .test r => { m with cpu := { m.cpu with eflags := test_flags m.cpu.eflags (m.cpu.reg r) } }
  | .call => m.push return_address
  | .ret => m.setReg .esp (m.cpu.reg .esp + 4)
  | .iret =>
    let esp := m.cpu.reg .esp
    let cpu : Cpu := { m.cpu with eip := m.word esp, cs := m.word (esp + 4), eflags := m.word (esp + 8) }
    if cpu.cs &&& 0x3 = 3 then
      { m with cpu := { cpu with ss := m.word (esp + 16) } }.setReg .esp (m.word (esp + 12))
    else { m with cpu := cpu }.setReg .esp (esp + 12)

def Machine.run (m : Machine) (code : List Instr) : Machine := code.foldl Machine.exec m

/-! ## `task.asm` -/

def restore_general_purpose_registers : List Instr :=
  [.push .ebp, .mov .ebp .esp, .load .ebx .ebp 8, .load .edi .ebx 0, .load .esi .ebx 4, .load .ebp .ebx 8,
    .load .edx .ebx 16, .load .ecx .ebx 20, .load .eax .ebx 24, .load .ebx .ebx 12, .pop .ebp, .ret]

def task_return : List Instr :=
  [.mov .ebp .esp, .load .ebx .ebp 4, .push_mem .ebx 44, .push_mem .ebx 40,
    .pushf, .pop .eax, .or .eax 0x200, .push .eax, .push_mem .ebx 32, .push_mem .ebx 28,
    .load_ax .ebx 44, .mov_seg .ds, .mov_seg .es, .mov_seg .fs, .mov_seg .gs,
    .push_mem .ebp 4, .call] ++ restore_general_purpose_registers ++ [.add .esp 4, .iret]

/-! ## `idt.c` and `task.c` -/

structure InterruptFrame where
  edi : Nat
  esi : Nat
  ebp : Nat
  reserved : Nat
  ebx : Nat
  edx : Nat
  ecx : Nat
  eax : Nat
  ip : Nat
  cs : Nat
  flags : Nat
  esp : Nat
  ss : Nat

/-- The frame at an address. -/
def Machine.frame (m : Machine) (a : Nat) : InterruptFrame :=
  ⟨m.word a, m.word (a + 4), m.word (a + 8), m.word (a + 12), m.word (a + 16), m.word (a + 20),
    m.word (a + 24), m.word (a + 28), m.word (a + 32), m.word (a + 36), m.word (a + 40), m.word (a + 44),
    m.word (a + 48)⟩

namespace TaskList

def task_save_state (s : TaskList) (task : Nat) (frame : InterruptFrame) : TaskList :=
  s.set task { s.task task with
    registers :=
      { ip := frame.ip, cs := frame.cs, flags := frame.flags, esp := frame.esp, ss := frame.ss
        eax := frame.eax, ebp := frame.ebp, ebx := frame.ebx, ecx := frame.ecx, edi := frame.edi
        edx := frame.edx, esi := frame.esi } }

end TaskList

/-- The task list, and the global `current_process` that `task_switch` sets with the current task. -/
structure Running where
  tasks : TaskList
  current_process : Nat

namespace Running

def task_switch (s : Running) (task : Nat) : Running :=
  { tasks := s.tasks.task_switch task, current_process := (s.tasks.task task).process }

/-- Returns `&next->registers`, or 0. -/
def int20h_handler (s : Running) (frame : InterruptFrame) : Nat × Running :=
  if s.tasks.current_task = 0 then (0, s) else
  if frame.cs &&& 0x3 ≠ 3 then (0, s) else
  let s := { s with tasks := s.tasks.task_save_state s.tasks.current_task frame }
  let next := s.tasks.task_get_next
  if next = 0 ∨ next = s.tasks.current_task then (0, s) else
  (next + 4, s.task_switch next)

end Running

/-- The handler reads the task list only. -/
def TaskList.int20h_handler (s : TaskList) (frame : InterruptFrame) : Nat × TaskList :=
  let res := Running.int20h_handler { tasks := s, current_process := 0 } frame
  (res.1, res.2.tasks)

/-! ## `idt.asm` -/

/-- What a C function may leave in the registers that it need not keep, and on the stack below its frame. -/
structure Clobber where
  ecx : Nat
  edx : Nat
  eflags : Nat
  stack : Nat → Nat

namespace Machine

/-- The processor switches to the kernel stack and pushes what `iret` takes back. -/
def interrupt (m : Machine) : Machine :=
  let cpu := m.cpu
  let m := if cpu.cs &&& 0x3 = 3 then
      (({ m with cpu := { m.cpu with ss := 0x10 } }.setReg .esp tss_esp0).push cpu.ss).push (cpu.reg .esp)
    else m
  let m := ((m.push cpu.eflags).push cpu.cs).push cpu.eip
  { m with cpu := { m.cpu with cs := 0x08, eflags := cpu.eflags &&& 0xFFFFFCFF } }

/-- The body of the C function. Its argument is above the return address. -/
def call_int20h_handler (m : Machine) (c : Clobber) : Machine :=
  let esp := m.cpu.reg .esp
  let res := m.tasks.int20h_handler (m.frame (m.word (esp + 4)))
  let m := { m with
    cpu := { m.cpu with eflags := c.eflags }
    mem := fun a => if a < esp then c.stack a else m.mem a
    tasks := res.2 }
  ((m.setReg .ecx c.ecx).setReg .edx c.edx).setReg .eax res.1

/-- `int20h`, from the interrupt to the `iret`. The jump looks at ZF. -/
def int20h (m : Machine) (c : Clobber) : Machine :=
  let m := m.interrupt.run [.pushad, .push .esp, .call]
  let m := (m.call_int20h_handler c).run [.ret, .add .esp 4, .test .eax]
  if m.cpu.eflags.testBit 6 then m.run [.popad, .iret]
  else m.run ([.push .eax, .call] ++ task_return)

end Machine

end PeachOS
