import PeachOS.Code.Interrupt
import PeachOS.Lib.Run

/-!
# Preemption

The timer interrupt saves the registers of the task that it interrupts, and another timer interrupt resumes
the task later on. Two of the registers do not come back: `ebp`, which `restore_general_purpose_registers`
loads and then pops from the stack, and `eflags`, which `task_return` takes from the kernel.
-/

open PeachOS.Lib

namespace PeachOS.Switch

open Machine

/-- The registers of a task, in a frame on the stack. -/
structure FrameAt (mem : Nat → Nat) (a : Nat) (r : Registers) : Prop where
  edi : mem a = r.edi
  esi : mem (a + 4) = r.esi
  ebp : mem (a + 8) = r.ebp
  ebx : mem (a + 16) = r.ebx
  edx : mem (a + 20) = r.edx
  ecx : mem (a + 24) = r.ecx
  eax : mem (a + 28) = r.eax
  ip : mem (a + 32) = r.ip
  cs : mem (a + 36) = r.cs
  flags : mem (a + 40) = r.flags
  esp : mem (a + 44) = r.esp
  ss : mem (a + 48) = r.ss

theorem word_stack (m : Machine) (a : Nat) (h : a < PEACHOS_HEAP_ADDRESS) : m.word a = m.mem a := by
  unfold Machine.word
  rw [if_neg]
  omega

theorem lt_heap (n : Nat) (h : n < 0x1000000) : n < PEACHOS_HEAP_ADDRESS := h

theorem word_task (m : Machine) (task off : Nat) (h : task % 4096 = 0) (hheap : PEACHOS_HEAP_ADDRESS ≤ task)
    (hoff : off < 48) : m.word (task + 4 + off) = (m.tasks.task task).registers.word off := by
  have hmod : (task + 4 + off) % 4096 = 4 + off := by omega
  unfold Machine.word
  rw [if_pos (by omega), hmod, show task + 4 + off - (4 + off) = task by omega,
    show 4 + off - 4 = off by omega]

theorem enter_spec (m : Machine) (huser : m.cpu.cs &&& 0x3 = 3) :
    ∃ m', m.interrupt.run [.pushad, .push .esp, .call] = m' ∧ m'.cpu.reg .esp = 0x600000 - 60 ∧
      m'.mem (0x600000 - 56) = 0x600000 - 52 ∧ FrameAt m'.mem (0x600000 - 52) m.cpu.registers ∧
      m'.tasks = m.tasks := by
  refine ⟨_, rfl, ?_, ?_, ?_, ?_⟩
  all_goals simp only [interrupt, huser, if_true]
  · rfl
  · rfl
  · constructor <;> rfl
  · rfl

/-! ## One instruction -/

section Exec

variable (m : Machine) (r d : Reg) (s : Seg) (v a off : Nat)

@[simp] theorem exec_push : m.exec (.push r) = m.push (m.cpu.reg r) := rfl
@[simp] theorem exec_push_mem : m.exec (.push_mem r off) = m.push (m.word (m.cpu.reg r + off)) := rfl
@[simp] theorem exec_pop : m.exec (.pop r) =
    (m.setReg .esp (m.cpu.reg .esp + 4)).setReg r (m.word (m.cpu.reg .esp)) := rfl
@[simp] theorem exec_pushf : m.exec .pushf = m.push m.cpu.eflags := rfl
@[simp] theorem exec_mov : m.exec (.mov d r) = m.setReg d (m.cpu.reg r) := rfl
@[simp] theorem exec_load : m.exec (.load d r off) = m.setReg d (m.word (m.cpu.reg r + off)) := rfl
@[simp] theorem exec_load_ax : m.exec (.load_ax r off) =
    m.setReg .eax (m.cpu.reg .eax / 65536 * 65536 + m.word (m.cpu.reg r + off) % 65536) := rfl
@[simp] theorem exec_add : m.exec (.add r v) = m.setReg r (m.cpu.reg r + v) := rfl
@[simp] theorem exec_or : m.exec (.or r v) = m.setReg r (m.cpu.reg r ||| v) := rfl
@[simp] theorem exec_call : m.exec .call = m.push return_address := rfl
@[simp] theorem exec_ret : m.exec .ret = m.setReg .esp (m.cpu.reg .esp + 4) := rfl

@[simp] theorem setReg_reg (x : Reg) : (m.setReg r v).cpu.reg x = if x = r then v else m.cpu.reg x := rfl
@[simp] theorem setReg_eflags : (m.setReg r v).cpu.eflags = m.cpu.eflags := rfl
@[simp] theorem setReg_tasks : (m.setReg r v).tasks = m.tasks := rfl
@[simp] theorem word_setReg : (m.setReg r v).word a = m.word a := rfl

@[simp] theorem push_reg (x : Reg) :
    (m.push v).cpu.reg x = if x = .esp then m.cpu.reg .esp - 4 else m.cpu.reg x := rfl
@[simp] theorem push_eflags : (m.push v).cpu.eflags = m.cpu.eflags := rfl
@[simp] theorem push_tasks : (m.push v).tasks = m.tasks := rfl

@[simp] theorem mov_seg_reg (x : Reg) : (m.exec (.mov_seg s)).cpu.reg x = m.cpu.reg x := rfl
@[simp] theorem mov_seg_eflags : (m.exec (.mov_seg s)).cpu.eflags = m.cpu.eflags := rfl
@[simp] theorem mov_seg_tasks : (m.exec (.mov_seg s)).tasks = m.tasks := rfl
@[simp] theorem word_mov_seg : (m.exec (.mov_seg s)).word a = m.word a := rfl

theorem word_push (h : m.cpu.reg .esp - 4 < PEACHOS_HEAP_ADDRESS) :
    (m.push v).word a = if a = m.cpu.reg .esp - 4 then v else m.word a := by
  unfold Machine.word
  by_cases ha : a = m.cpu.reg .esp - 4
  · rw [if_neg (by omega), if_pos ha]
    exact if_pos ha
  · rw [if_neg ha]
    by_cases htask : PEACHOS_HEAP_ADDRESS ≤ a ∧ 4 ≤ a % 4096 ∧ a % 4096 < 52
    · rw [if_pos htask, if_pos htask]
      rfl
    · rw [if_neg htask, if_neg htask]
      exact if_neg ha

end Exec

theorem iret_spec (m : Machine) (hcs : m.word (m.cpu.reg .esp + 4) &&& 0x3 = 3) :
    (m.exec .iret).cpu.registers =
      { m.cpu.registers with
        ip := m.word (m.cpu.reg .esp)
        cs := m.word (m.cpu.reg .esp + 4)
        flags := m.word (m.cpu.reg .esp + 8)
        esp := m.word (m.cpu.reg .esp + 12)
        ss := m.word (m.cpu.reg .esp + 16) } ∧ (m.exec .iret).tasks = m.tasks := by
  unfold exec
  dsimp only
  rw [if_pos hcs]
  exact ⟨rfl, rfl⟩

/-! ## The two ways out -/

theorem no_switch_spec (m : Machine) (r : Registers) (ha : m.cpu.reg .esp + 52 ≤ PEACHOS_HEAP_ADDRESS)
    (hframe : FrameAt m.mem (m.cpu.reg .esp) r) (hcs : r.cs &&& 0x3 = 3) :
    (m.run [.popad, .iret]).cpu.registers = r ∧ (m.run [.popad, .iret]).tasks = m.tasks := by
  have hword : ∀ i, i < 52 → m.word (m.cpu.reg .esp + i) = m.mem (m.cpu.reg .esp + i) :=
    fun i hi => word_stack m _ (by omega)
  have hpopad : ∀ a, (m.exec .popad).word a = m.word a := fun a => rfl
  have hesp : (m.exec .popad).cpu.reg .esp = m.cpu.reg .esp + 32 := rfl
  obtain ⟨hregs, htasks⟩ := iret_spec (m.exec .popad) (by
    rw [hpopad, hesp, Nat.add_assoc, hword 36 (by omega), hframe.cs]
    exact hcs)
  refine ⟨hregs.trans ?_, htasks⟩
  rw [hesp]
  simp only [hpopad, Nat.add_assoc, Nat.reduceAdd]
  rw [hword 32 (by omega), hword 36 (by omega), hword 40 (by omega), hword 44 (by omega), hword 48 (by omega),
    hframe.ip, hframe.cs, hframe.flags, hframe.esp, hframe.ss]
  have hgp : (m.exec .popad).cpu.registers = { m.cpu.registers with
      edi := m.word (m.cpu.reg .esp), esi := m.word (m.cpu.reg .esp + 4), ebp := m.word (m.cpu.reg .esp + 8)
      ebx := m.word (m.cpu.reg .esp + 16), edx := m.word (m.cpu.reg .esp + 20)
      ecx := m.word (m.cpu.reg .esp + 24), eax := m.word (m.cpu.reg .esp + 28)
      esp := m.cpu.reg .esp + 32 } := rfl
  rw [hgp, hword 4 (by omega), hword 8 (by omega), hword 16 (by omega), hword 20 (by omega),
    hword 24 (by omega), hword 28 (by omega),
    show m.word (m.cpu.reg .esp) = m.mem (m.cpu.reg .esp) from hword 0 (by omega), hframe.edi, hframe.esi,
    hframe.ebp, hframe.ebx, hframe.edx, hframe.ecx, hframe.eax]

/-- The function loads `ebp` from the structure, and then pops the `ebp` of its caller. -/
theorem restore_spec (m : Machine) (f p : Nat) (hesp : m.cpu.reg .esp = f + 4)
    (hlow : f < PEACHOS_HEAP_ADDRESS) (harg : m.word (f + 8) = p) (hp : PEACHOS_HEAP_ADDRESS ≤ p) :
    ∃ m', m.run restore_general_purpose_registers = m' ∧
      m'.cpu.registers = { m.cpu.registers with
        edi := m.word p, esi := m.word (p + 4), ebx := m.word (p + 12), edx := m.word (p + 16)
        ecx := m.word (p + 20), eax := m.word (p + 24), esp := f + 8 } ∧
      (∀ a, a ≠ f → m'.word a = m.word a) ∧ m'.tasks = m.tasks := by
  have hfar : ∀ off, p + off ≠ f := fun off => by omega
  have hpush : ∀ v a, (m.push v).word a = if a = f then v else m.word a := by
    intro v a
    rw [word_push m v a (by omega), hesp, Nat.add_sub_cancel]
  refine ⟨_, rfl, ?_, ?_, rfl⟩
  · simp [restore_general_purpose_registers, Machine.run, Cpu.registers, hesp, hpush, harg, hfar,
      show p ≠ f from hfar 0]
    exact ⟨rfl, rfl, rfl⟩
  · intro a ha
    simp [restore_general_purpose_registers, Machine.run, hpush, ha]

/-- `task_return` up to the call of `restore_general_purpose_registers`. -/
def return_frame : List Instr := task_return.take 17

theorem return_frame_spec (m : Machine) (f p : Nat) (hesp : m.cpu.reg .esp = f + 28)
    (hlow : f + 28 < PEACHOS_HEAP_ADDRESS) (harg : m.word (f + 32) = p) (hp : PEACHOS_HEAP_ADDRESS ≤ p) :
    ∃ m', m.run return_frame = m' ∧ m'.cpu.reg .esp = f ∧ m'.cpu.reg .ebp = f + 28 ∧
      m'.word (f + 4) = p ∧ m'.word (f + 8) = m.word (p + 28) ∧ m'.word (f + 12) = m.word (p + 32) ∧
      m'.word (f + 16) = m.cpu.eflags ||| 0x200 ∧ m'.word (f + 20) = m.word (p + 40) ∧
      m'.word (f + 24) = m.word (p + 44) ∧ (∀ a, PEACHOS_HEAP_ADDRESS ≤ a → m'.word a = m.word a) ∧
      m'.tasks = m.tasks := by
  have hlt : ∀ n, n ≤ 28 → f + n < PEACHOS_HEAP_ADDRESS := fun n hn => by omega
  have hlt0 : f < PEACHOS_HEAP_ADDRESS := by omega
  have hfar : ∀ off, p + off ≠ f := fun off => by omega
  have hnear : ∀ n, n ≤ 28 → p ≠ f + n := fun n hn => by omega
  refine ⟨_, rfl, ?_, ?_, ?_, ?_, ?_, ?_, ?_, ?_, ?_, rfl⟩
  case refine_9 =>
    intro a ha
    have hne : ∀ n, n ≤ 28 → a ≠ f + n := fun n hn => by omega
    have hne0 : a ≠ f := by omega
    simp [return_frame, task_return, Machine.run, hesp, word_push, hlt, hlt0, hne, hne0]
  all_goals simp [return_frame, task_return, Machine.run, hesp, harg, word_push, hlt, hlt0, hfar]

theorem run_append (m : Machine) (code code' : List Instr) :
    m.run (code ++ code') = (m.run code).run code' :=
  List.foldl_append

theorem task_return_spec (m : Machine) (g task : Nat) (hesp : m.cpu.reg .esp = g + 32)
    (hlow : g + 32 < PEACHOS_HEAP_ADDRESS) (harg : m.word (g + 36) = task + 4) (h4096 : task % 4096 = 0)
    (hheap : PEACHOS_HEAP_ADDRESS ≤ task) (hcs : (m.tasks.task task).registers.cs &&& 0x3 = 3) :
    (m.run task_return).cpu.registers =
      { (m.tasks.task task).registers with ebp := g + 32, flags := m.cpu.eflags ||| 0x200 } := by
  have hsaved : ∀ off < 48, m.word (task + 4 + off) = (m.tasks.task task).registers.word off :=
    fun off hoff => word_task m task off h4096 hheap hoff
  obtain ⟨m1, hm1, h1esp, h1ebp, h1arg, h1ip, h1cs, h1flags, h1sp, h1ss, h1heap, -⟩ :=
    return_frame_spec m (g + 4) (task + 4) hesp (by omega) harg (by omega)
  obtain ⟨m2, hm2, h2regs, h2word, -⟩ :=
    restore_spec m1 g (task + 4) h1esp (by omega) h1arg (by omega)
  have hrun : m.run task_return = (m2.setReg .esp (m2.cpu.reg .esp + 4)).exec .iret := by
    show m.run (return_frame ++ (restore_general_purpose_registers ++ [.add .esp 4, .iret])) = _
    rw [run_append, hm1, run_append, hm2]
    rfl
  have h2esp : m2.cpu.reg .esp = g + 8 := congrArg Registers.esp h2regs
  have hstack : ∀ off, m2.word (g + (4 + off)) = m1.word (g + (4 + off)) := fun off => h2word _ (by omega)
  have hiret := iret_spec (m2.setReg .esp (m2.cpu.reg .esp + 4))
  simp only [setReg_reg, if_true, word_setReg, h2esp, Nat.add_assoc, Nat.reduceAdd] at hiret
  simp only [Nat.add_assoc, Nat.reduceAdd] at h1ip h1cs h1flags h1sp h1ss
  have hcs' : m.word (task + 36) = (m.tasks.task task).registers.cs := hsaved 32 (by decide)
  rw [hstack 8, hstack 12, hstack 16, hstack 20, hstack 24, h1ip, h1cs, h1flags, h1sp, h1ss, hcs'] at hiret
  obtain ⟨hregs, -⟩ := hiret hcs
  have hload : ∀ off < 48, m1.word (task + 4 + off) = (m.tasks.task task).registers.word off :=
    fun off hoff => (h1heap _ (by omega)).trans (hsaved off hoff)
  have hgp : (m2.setReg .esp (g + 12)).cpu.registers = { m2.cpu.registers with esp := g + 12 } := rfl
  have hebp : m1.cpu.registers.ebp = g + 32 := h1ebp
  rw [hrun, h2esp, hregs, hgp, h2regs]
  dsimp only
  rw [hebp, hload 4 (by decide), hload 12 (by decide), hload 16 (by decide), hload 20 (by decide),
    hload 24 (by decide), show m1.word (task + 4) = _ from hload 0 (by decide),
    show m.word (task + 32) = _ from hsaved 28 (by decide),
    show m.word (task + 44) = _ from hsaved 40 (by decide),
    show m.word (task + 48) = _ from hsaved 44 (by decide)]
  rfl

/-! ## One tick -/

theorem exec_tasks (m : Machine) (i : Instr) : (m.exec i).tasks = m.tasks := by
  cases i with
  | iret =>
    unfold exec
    dsimp only
    split
    · rfl
    · rfl
  | _ => rfl

theorem run_tasks (m : Machine) (code : List Instr) : (m.run code).tasks = m.tasks := by
  induction code generalizing m with
  | nil => rfl
  | cons i code ih => exact (ih (m.exec i)).trans (exec_tasks m i)

theorem testBit_ite (c : Prop) [Decidable c] (n i : Nat) :
    (if c then n else 0).testBit i = (decide c && n.testBit i) := by
  by_cases h : c
  · simp [h]
  · simp [h]

theorem test_flags_zf (flags v : Nat) : (test_flags flags v).testBit 6 = decide (v = 0) := by
  have hmask : Nat.testBit 0xFFFFF73A 6 = false := by decide
  have hpf : Nat.testBit 0x04 6 = false := by decide
  have hzf : Nat.testBit 0x40 6 = true := by decide
  have hsf : Nat.testBit 0x80 6 = false := by decide
  unfold test_flags
  simp only [Nat.testBit_or, Nat.testBit_and, testBit_ite, hmask, hpf, hzf, hsf, Bool.and_false, Bool.and_true,
    Bool.or_false, Bool.false_or]

/-- The task list with the registers of the current task saved. -/
def saved (s : TaskList) (r : Registers) : TaskList :=
  s.set s.current_task { s.task s.current_task with registers := r }

theorem saved_next (s : TaskList) (r : Registers) : (saved s r).task_get_next = s.task_get_next := by
  unfold TaskList.task_get_next saved TaskList.set
  simp only [if_true]

theorem int20h_handler_spec (m : Machine) (a : Nat) (r : Registers) (ha : a + 52 ≤ PEACHOS_HEAP_ADDRESS)
    (hframe : FrameAt m.mem a r) (hcs : r.cs &&& 0x3 = 3) (hcur : m.tasks.current_task ≠ 0) :
    m.tasks.int20h_handler (m.frame a) =
      if m.tasks.task_get_next = 0 ∨ m.tasks.task_get_next = m.tasks.current_task then (0, saved m.tasks r)
      else (m.tasks.task_get_next + 4, (saved m.tasks r).task_switch m.tasks.task_get_next) := by
  have hword : ∀ i, i < 52 → m.word (a + i) = m.mem (a + i) := fun i hi => word_stack m _ (by omega)
  have hsave : m.tasks.task_save_state m.tasks.current_task (m.frame a) = saved m.tasks r := by
    unfold TaskList.task_save_state Machine.frame saved
    dsimp only
    rw [show m.word a = m.mem a from hword 0 (by decide), hword 4 (by decide), hword 8 (by decide),
      hword 16 (by decide), hword 20 (by decide), hword 24 (by decide), hword 28 (by decide),
      hword 32 (by decide), hword 36 (by decide), hword 40 (by decide), hword 44 (by decide),
      hword 48 (by decide), hframe.edi, hframe.esi, hframe.ebp, hframe.ebx, hframe.edx, hframe.ecx,
      hframe.eax, hframe.ip, hframe.cs, hframe.flags, hframe.esp, hframe.ss]
  have hfcs : (m.frame a).cs = r.cs := (hword 36 (by decide)).trans hframe.cs
  unfold TaskList.int20h_handler Running.int20h_handler
  rw [if_neg hcur, hfcs, if_neg (not_not_intro hcs), hsave]
  dsimp only
  rw [saved_next, show (saved m.tasks r).current_task = m.tasks.current_task from rfl]
  by_cases hstay : m.tasks.task_get_next = 0 ∨ m.tasks.task_get_next = m.tasks.current_task
  · rw [if_pos hstay, if_pos hstay]
  · rw [if_neg hstay, if_neg hstay]
    rfl

/-- What the handler returns in `eax`, and the task list that it leaves. -/
def ticked (s : TaskList) (r : Registers) : Nat × TaskList :=
  if s.current_task = 0 then (0, s)
  else if s.task_get_next = 0 ∨ s.task_get_next = s.current_task then (0, saved s r)
  else (s.task_get_next + 4, (saved s r).task_switch s.task_get_next)

theorem handler_ticked (m : Machine) (a : Nat) (r : Registers) (ha : a + 52 ≤ PEACHOS_HEAP_ADDRESS)
    (hframe : FrameAt m.mem a r) (hcs : r.cs &&& 0x3 = 3) :
    m.tasks.int20h_handler (m.frame a) = ticked m.tasks r := by
  unfold ticked
  by_cases hcur : m.tasks.current_task = 0
  · unfold TaskList.int20h_handler Running.int20h_handler
    rw [if_pos hcur, if_pos hcur]
  · rw [if_neg hcur]
    exact int20h_handler_spec m a r ha hframe hcs hcur

theorem at_jump (m : Machine) (c : Clobber) (huser : m.cpu.cs &&& 0x3 = 3) :
    ∃ m', ((m.interrupt.run [.pushad, .push .esp, .call]).call_int20h_handler c).run
        [.ret, .add .esp 4, .test .eax] = m' ∧
      m'.cpu.reg .esp = 0x600000 - 52 ∧ m'.cpu.reg .eax = (ticked m.tasks m.cpu.registers).1 ∧
      m'.cpu.eflags = test_flags c.eflags (ticked m.tasks m.cpu.registers).1 ∧
      FrameAt m'.mem (0x600000 - 52) m.cpu.registers ∧ m'.tasks = (ticked m.tasks m.cpu.registers).2 := by
  obtain ⟨m1, hm1, hesp, harg, hframe, htasks⟩ := enter_spec m huser
  have hword : m1.word (m1.cpu.reg .esp + 4) = 0x600000 - 52 := by
    rw [hesp, word_stack m1 _ (by decide)]
    exact harg
  have hres : m1.tasks.int20h_handler (m1.frame (m1.word (m1.cpu.reg .esp + 4))) =
      ticked m.tasks m.cpu.registers := by
    rw [hword, ← htasks]
    exact handler_ticked m1 _ _ (by decide) hframe huser
  rw [hm1]
  refine ⟨_, rfl, ?_, ?_, ?_, ?_, ?_⟩
  · show m1.cpu.reg .esp + 4 + 4 = _
    rw [hesp]
  · exact congrArg Prod.fst hres
  · show test_flags c.eflags (m1.tasks.int20h_handler (m1.frame (m1.word (m1.cpu.reg .esp + 4)))).1 = _
    rw [hres]
  · -- the C function writes below the frame only
    have hmem : ∀ a, 0x600000 - 60 ≤ a → (if a < m1.cpu.reg .esp then c.stack a else m1.mem a) = m1.mem a := by
      intro a ha
      rw [hesp, if_neg (by omega)]
    exact ⟨(hmem _ (by decide)).trans hframe.edi, (hmem _ (by decide)).trans hframe.esi,
      (hmem _ (by decide)).trans hframe.ebp, (hmem _ (by decide)).trans hframe.ebx,
      (hmem _ (by decide)).trans hframe.edx, (hmem _ (by decide)).trans hframe.ecx,
      (hmem _ (by decide)).trans hframe.eax, (hmem _ (by decide)).trans hframe.ip,
      (hmem _ (by decide)).trans hframe.cs, (hmem _ (by decide)).trans hframe.flags,
      (hmem _ (by decide)).trans hframe.esp, (hmem _ (by decide)).trans hframe.ss⟩
  · exact congrArg Prod.snd hres

/-- A tick from user mode. Without a switch the registers are the same as before. With a switch they are those
of the next task, but for two. -/
theorem int20h_spec (m : Machine) (c : Clobber) (huser : m.cpu.cs &&& 0x3 = 3) :
    (m.int20h c).tasks = (ticked m.tasks m.cpu.registers).2 ∧
    ((ticked m.tasks m.cpu.registers).1 = 0 → (m.int20h c).cpu.registers = m.cpu.registers) ∧
    ∀ task, (ticked m.tasks m.cpu.registers).1 = task + 4 → task % 4096 = 0 → PEACHOS_HEAP_ADDRESS ≤ task →
      ((ticked m.tasks m.cpu.registers).2.task task).registers.cs &&& 0x3 = 3 →
      (m.int20h c).cpu.registers = { ((ticked m.tasks m.cpu.registers).2.task task).registers with
        ebp := 0x600000 - 60, flags := test_flags c.eflags (task + 4) ||| 0x200 } := by
  obtain ⟨m', hm', hesp, heax, hflags, hframe, htasks⟩ := at_jump m c huser
  have hzf : m'.cpu.eflags.testBit 6 = decide ((ticked m.tasks m.cpu.registers).1 = 0) := by
    rw [hflags, test_flags_zf]
  have hjump : m.int20h c = if m'.cpu.eflags.testBit 6 then m'.run [.popad, .iret]
      else m'.run ([.push .eax, .call] ++ task_return) := by
    rw [← hm']
    rfl
  rw [hjump]
  refine ⟨?_, ?_, ?_⟩
  · split
    · rw [run_tasks, htasks]
    · rw [run_tasks, htasks]
  · intro h0
    rw [if_pos (by rw [hzf, decide_eq_true h0])]
    exact (no_switch_spec m' m.cpu.registers (by rw [hesp]; decide) (hesp ▸ hframe) huser).1
  · intro task htask h4096 hheap hcs
    rw [if_neg (by rw [hzf, decide_eq_true_iff]; omega), run_append]
    rw [htask] at heax hflags
    obtain ⟨m2, hm2⟩ : ∃ m2, m'.run [.push .eax, .call] = m2 := ⟨_, rfl⟩
    have h2esp : m2.cpu.reg .esp = 6291364 + 32 := by
      rw [← hm2]
      show m'.cpu.reg .esp - 4 - 4 = _
      rw [hesp]
    have h2arg : m2.word (6291364 + 36) = task + 4 := by
      rw [← hm2]
      simp [Machine.run, word_push, hesp, heax, lt_heap]
    have h2tasks : m2.tasks = (ticked m.tasks m.cpu.registers).2 := by
      rw [← hm2, run_tasks, htasks]
    have h2flags : m2.cpu.eflags = test_flags c.eflags (task + 4) := by
      rw [← hm2]
      exact hflags
    rw [hm2, ← h2tasks, ← h2flags]
    rw [← h2tasks] at hcs
    exact task_return_spec m2 6291364 task h2esp (by decide) h2arg h4096 hheap hcs

/-! ## Runs -/

/-- A timer interrupt of a task in user mode. The task may have any registers, and the kernel stack and what the
C function leaves are arbitrary too. -/
structure Tick where
  cpu : Cpu
  mem : Nat → Nat
  clobber : Clobber
  user : cpu.cs &&& 0x3 = 3

/-- The machine after the tick. -/
def Tick.machine (t : Tick) (s : TaskList) : Machine := (⟨t.cpu, t.mem, s⟩ : Machine).int20h t.clobber

def tick (s : TaskList) (t : Tick) : TaskList := (t.machine s).tasks

theorem tick_eq (s : TaskList) (t : Tick) : tick s t = (ticked s t.cpu.registers).2 :=
  (int20h_spec ⟨t.cpu, t.mem, s⟩ t.clobber t.user).1

theorem tick_other (s : TaskList) (t : Tick) (task : Nat) (h : s.current_task ≠ task) :
    ((tick s t).task task).registers = (s.task task).registers := by
  have hsaved : ((saved s t.cpu.registers).task task).registers = (s.task task).registers := by
    unfold saved TaskList.set
    dsimp only
    rw [if_neg h.symm]
  rw [tick_eq, ticked]
  split
  · rfl
  split
  · exact hsaved
  · exact hsaved

theorem tick_self (s : TaskList) (t : Tick) (h : s.current_task ≠ 0) :
    ((tick s t).task s.current_task).registers = t.cpu.registers := by
  have hsaved : ((saved s t.cpu.registers).task s.current_task).registers = t.cpu.registers := by
    unfold saved TaskList.set
    dsimp only
    rw [if_pos rfl]
  rw [tick_eq, ticked, if_neg h]
  split
  · exact hsaved
  · exact hsaved

theorem ticks_other (ts : List Tick) (s : TaskList) (task : Nat)
    (h : Along tick (fun s _ => s.current_task ≠ task) ts s) :
    ((ts.foldl tick s).task task).registers = (s.task task).registers := by
  induction ts generalizing s with
  | nil => rfl
  | cons t ts ih => exact (ih (tick s t) h.2).trans (tick_other s t task h.1)

theorem tick_resumes (s : TaskList) (t : Tick) (task : Nat) (h0 : s.current_task ≠ task)
    (h : (tick s t).current_task = task) (h4096 : task % 4096 = 0) (hheap : PEACHOS_HEAP_ADDRESS ≤ task)
    (hcs : (s.task task).registers.cs &&& 0x3 = 3) :
    (t.machine s).cpu.registers = { (s.task task).registers with
      ebp := tss_esp0 - 60, flags := test_flags t.clobber.eflags (task + 4) ||| 0x200 } := by
  obtain ⟨-, -, hresume⟩ := int20h_spec ⟨t.cpu, t.mem, s⟩ t.clobber t.user
  have hsame := tick_other s t task h0
  have hres : (ticked s t.cpu.registers).1 = task + 4 := by
    rw [tick_eq] at h
    unfold ticked at h ⊢
    split at h
    · exact absurd h h0
    split at h
    · exact absurd h h0
    · rename_i hcur hnext
      rw [if_neg hcur, if_neg hnext]
      exact congrArg (· + 4) h
  rw [tick_eq] at hsame
  rw [← hsame] at hcs ⊢
  exact hresume task hres h4096 hheap hcs

/-- A task that is interrupted, and resumed after any number of ticks of other tasks, has the registers it was
interrupted with if and only if its `ebp` was the address that `task_return` was entered with and its flags
were those of the kernel. -/
theorem preemption_transparent_iff (s : TaskList) (first : Tick) (between : List Tick) (last : Tick)
    (hcur : s.current_task ≠ 0) (h4096 : s.current_task % 4096 = 0)
    (hheap : PEACHOS_HEAP_ADDRESS ≤ s.current_task)
    (hbetween : Along tick (fun s' _ => s'.current_task ≠ s.current_task) (between ++ [last]) (tick s first))
    (hlast : (tick (between.foldl tick (tick s first)) last).current_task = s.current_task) :
    (last.machine (between.foldl tick (tick s first))).cpu.registers = first.cpu.registers ↔
      first.cpu.reg .ebp = tss_esp0 - 60 ∧
        first.cpu.eflags = test_flags last.clobber.eflags (s.current_task + 4) ||| 0x200 := by
  have hothers := along_init _ between last _ hbetween
  have hsaved : ((between.foldl tick (tick s first)).task s.current_task).registers = first.cpu.registers :=
    (ticks_other between _ _ hothers).trans (tick_self s first hcur)
  have hresume := tick_resumes _ last s.current_task (along_last _ between last _ hbetween) hlast h4096 hheap (by
    rw [hsaved]
    exact first.user)
  rw [hresume, hsaved]
  constructor
  · intro heq
    exact ⟨(congrArg Registers.ebp heq).symm, (congrArg Registers.flags heq).symm⟩
  · rintro ⟨hebp, hflags⟩
    rw [← hebp, ← hflags]
    rfl

/-- Two tasks, the first one running. -/
def twoTasks : TaskList :=
  ((⟨fun _ => .zero, 0, 0, 0⟩ : TaskList).task_insert 0x1000000).task_insert 0x1001000

/-- A tick at a given `ebp` and flags. -/
def tickAt (ebp eflags : Nat) : Tick where
  cpu :=
    { reg := fun r => if r = .ebp then ebp else 0, eip := PEACHOS_PROGRAM_VIRTUAL_ADDRESS
      cs := USER_CODE_SEGMENT, eflags := eflags, ss := USER_DATA_SEGMENT, seg := fun _ => USER_DATA_SEGMENT }
  mem := fun _ => 0
  clobber := ⟨0, 0, 0x2, fun _ => 0⟩
  user := show USER_CODE_SEGMENT &&& 0x3 = 3 by decide

theorem twoTasks_back (t u : Tick) : (tick twoTasks t).current_task = 0x1001000 ∧
    (tick (tick twoTasks t) u).current_task = 0x1000000 := by
  rw [tick_eq, tick_eq]
  exact ⟨rfl, rfl⟩

theorem twoTasks_transparent :
    ((tickAt 0 0).machine (tick twoTasks (tickAt 0x5FFFC4 0x202))).cpu.registers =
      (tickAt 0x5FFFC4 0x202).cpu.registers := by
  obtain ⟨hother, hback⟩ := twoTasks_back (tickAt 0x5FFFC4 0x202) (tickAt 0 0)
  have hne : (tick twoTasks (tickAt 0x5FFFC4 0x202)).current_task ≠ twoTasks.current_task := by
    rw [hother]
    decide
  exact (preemption_transparent_iff twoTasks (tickAt 0x5FFFC4 0x202) [] (tickAt 0 0) (by decide) (by decide)
    (by decide) ⟨hne, trivial⟩ hback).mpr ⟨rfl, rfl⟩

/-- A task with its frame pointer in its own stack comes back with one in the kernel's. -/
theorem twoTasks_ebp : (tickAt 0x3FF000 0x202).cpu.registers.ebp = 0x3FF000 ∧
    ((tickAt 0 0).machine (tick twoTasks (tickAt 0x3FF000 0x202))).cpu.registers.ebp = 0x5FFFC4 := by
  have hback := twoTasks_back (tickAt 0x3FF000 0x202) (tickAt 0 0)
  have hsaved := tick_self twoTasks (tickAt 0x3FF000 0x202) (by decide)
  have hresume := tick_resumes (tick twoTasks (tickAt 0x3FF000 0x202)) (tickAt 0 0) 0x1000000
    (hback.1 ▸ by decide) hback.2 (by decide) (by decide) (hsaved ▸ by decide)
  rw [hresume]
  exact ⟨rfl, rfl⟩

end PeachOS.Switch
