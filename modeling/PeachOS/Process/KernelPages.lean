import PeachOS.Spec.KernelPages
import PeachOS.Process.TaskCopies

/-!
# A loaded program and the pages of the kernel

The pages of a program are mapped from 0x400000 upwards, and nothing ends them before the interrupt stack of the kernel.
-/

open PeachOS.Lib PeachOS.Blocks PeachOS.Kernel

namespace PeachOS.Memory

variable {k k' : Kernel} {chunk dir f : Nat} {table : Nat → Nat}

/-! ## Mapping a program of any size -/

theorem paging_map_to_beyond (mem : Nat → UInt8) (chunk flags virt phys size : Nat) (hv : virt % 4096 = 0)
    (hp : phys % 4096 = 0) (hpos : 0 < phys) (hplt : phys < 2 ^ 32) (hsize : size < 2 ^ 32)
    (hbeyond : ¬ phys + size + 4096 ≤ 2 ^ 32) :
    (paging_map_to mem chunk virt phys (paging_align_address (u32 (phys + size))) flags).2 = mem := by
  -- the end of the block wraps around, so it does not come after the start
  have hend : paging_align_address (u32 (phys + size)) % 4096 = 0 ∧
      paging_align_address (u32 (phys + size)) ≤ phys := by
    unfold paging_align_address u32 PAGING_PAGE_SIZE
    split <;> omega
  unfold paging_map_to PAGING_PAGE_SIZE
  rw [if_neg (by omega), if_neg (by omega), if_neg (by omega)]
  split
  · rfl
  · rw [show paging_align_address (u32 (phys + size)) = phys by omega, Nat.sub_self]
    rfl

/-- What the directory of a process says. A program that would end beyond 2^32 is not mapped. -/
def programMap (p : Process) : FlatMap := fun v =>
  if 0x3FB000 ≤ v ∧ v < 0x3FF000 then (p.stack + (v - 0x3FB000)) ||| 7
  else if (0x400000 ≤ v ∧ v < 0x400000 + p.size) ∧ p.ptr + p.size + 4096 ≤ 2 ^ 32 then (p.ptr + (v - 0x400000)) ||| 7
  else v ||| 5

theorem process_map_memory_holds (hk : k.HeapOk) (process : Nat)
    (h : Holds k (k.tasks.task (k.process process).task).page_directory dir table 7 (.identity 5))
    (hptr : (k.process process).ptr % 4096 = 0) (hstack : (k.process process).stack % 4096 = 0)
    (hlow : 0x400000 ≤ (k.process process).ptr) (hplt : (k.process process).ptr < 2 ^ 32)
    (hsize : (k.process process).size < 2 ^ 32) (hslt : (k.process process).stack + 0x5000 ≤ 2 ^ 32) :
    ∃ mem, k.process_map_memory process = (0, { k with mem := mem }) ∧
      Holds { k with mem := mem } (k.tasks.task (k.process process).task).page_directory dir table 7
        (programMap (k.process process)) := by
  by_cases hfits : (k.process process).ptr + (k.process process).size + 4096 ≤ 2 ^ 32
  · obtain ⟨mem, heq, hdir, -, hget⟩ := process_map_memory_spec hk process h.pageDir hptr hstack hfits (by omega) hslt
    refine ⟨mem, heq, hdir, ?_⟩
    intro v hv hlt
    rw [hget v hv hlt, h.get v hv hlt]
    unfold programMap
    simp only [hfits, and_true]
    rfl
  · have hbin : k.process_map_binary process = (0, k) := by
      unfold process_map_binary
      dsimp only
      rw [paging_map_to_beyond k.mem _ _ _ _ _ (by decide) hptr (by omega) hplt hsize hfits]
    obtain ⟨mem, heq, hdir, -, hget⟩ := paging_map_to_spec hk h.pageDir 7 0x3FB000 (k.process process).stack 0x4000
      (by omega) (by omega) hstack (by omega) (by omega)
    refine ⟨mem, ?_, hdir, ?_⟩
    · unfold process_map_memory
      rw [hbin]
      dsimp only
      rw [if_neg (by omega), show user_flags = 7 from rfl,
        show PEACHOS_PROGRAM_VIRTUAL_STACK_ADDRESS_END = 0x3FB000 from rfl,
        show PEACHOS_USER_PROGRAM_STACK_SIZE = 0x4000 from rfl, heq]
    · intro v hv hlt
      rw [hget v hv hlt, h.get v hv hlt]
      unfold programMap
      simp only [hfits, and_false, if_false]
      rfl

/-! ## Loading -/

/-- The address of a block of the heap. -/
def HeapBlock (k : Kernel) (a : Nat) : Prop :=
  a % 4096 = 0 ∧ k.heap.saddr ≤ a ∧ a + 4096 ≤ k.heap.saddr + k.heap.table.total * 4096

theorem heapBlock_grows (h : Grows k k') (a : Nat) (ha : HeapBlock k' a) : HeapBlock k a := by
  unfold HeapBlock at *
  rwa [h.saddr, h.total] at ha

theorem heapBlock_kzalloc (hk : k.HeapOk) (size : Nat) (hne : (k.kzalloc size).1 ≠ 0) :
    HeapBlock k (k.kzalloc size).1 := by
  rcases kzalloc_cases hk size with ⟨hnull, -⟩ | ⟨⟨r, hr, heq⟩, -⟩
  · exact absurd hnull hne
  · have hal := hk.aligned
    rw [heq]
    unfold HeapBlock blockAddr
    omega

theorem kzalloc_fst (k : Kernel) (size : Nat) : (k.kzalloc size).1 = (heap_malloc k.heap size).1 := by
  unfold kzalloc kmalloc
  dsimp only
  split
  · rename_i h0
    exact h0.symm
  · rfl

theorem process_load_task_holds (hk : k.HeapOk) (process : Nat) (process_slot : Int)
    (hptr : (k.process process).ptr % 4096 = 0) (hstack : (k.process process).stack % 4096 = 0)
    (hlow : 0x400000 ≤ (k.process process).ptr) (hplt : (k.process process).ptr < 2 ^ 32)
    (hsize : (k.process process).size < 2 ^ 32) (hslt : (k.process process).stack + 0x5000 ≤ 2 ^ 32)
    (hoom : (k.process_load_task process process_slot).2.2.oom = false) :
    ∃ k' dir table, k.process_load_task process process_slot = (0, process, k') ∧ k'.HeapOk ∧
      k'.process process = { k.process process with task := (k'.process process).task } ∧
      Holds k' (k'.tasks.task (k'.process process).task).page_directory dir table 7
        (programMap (k.process process)) := by
  obtain ⟨-, k3, task, k1, chunk, dir, table, ht, htask⟩ := process_load_task_ready hk process process_slot hoom
  have hp3 := ht.record
  have hk1 := since_heapOk ht.since hk
  have hkk3 := since_heapOk ht.newDir.since hk1
  have hheld := holds_new hk1 5 (by decide) ht.newDir
  rw [← ht.directory] at hheld
  obtain ⟨mem, heq, hmapped⟩ := process_map_memory_holds hkk3 process hheld (by rw [hp3]; exact hptr)
    (by rw [hp3]; exact hstack) (by rw [hp3]; exact hlow) (by rw [hp3]; exact hplt) (by rw [hp3]; exact hsize)
    (by rw [hp3]; exact hslt)
  have hsame : programMap (k3.process process) = programMap (k.process process) := by
    rw [hp3]
    rfl
  rw [hsame] at hmapped
  rw [heq] at htask
  exact ⟨_, dir, table, htask, ⟨hkk3.aligned, hkk3.pos, hkk3.fits, hkk3.small⟩, by rw [hp3],
    pageDir_since hmapped.pageDir (since_same rfl rfl), hmapped.get⟩

/-- The record of a process that is to get its task. -/
structure Recorded (k k' : Kernel) (file : ProgramFile) (process : Nat) : Prop where
  heap : k'.HeapOk
  size : (k'.process process).size = file.filesize
  ptr : (k'.process process).ptr = k.programBlock file.filesize
  program : HeapBlock k (k'.process process).ptr
  stack : HeapBlock k (k'.process process).stack

theorem process_load_for_slot_recorded (hk : k.HeapOk) (file : ProgramFile) (filename : Nat → UInt8)
    (process_slot : Int) (uninit process : Nat) (hstat : file.stat ≤ 0)
    (hload : k.process_load_for_slot file filename process_slot uninit = (0, process, k')) :
    ∃ p k1, Recorded k k1 file p ∧ k1.process_load_task p process_slot = (0, process, k') := by
  obtain ⟨res, hres⟩ : ∃ res, k.kzalloc sizeof_process = res := ⟨_, rfl⟩
  obtain ⟨data, hdata⟩ : ∃ data, (res.2.setProcess res.1 .zero).process_load_data file res.1 = data :=
    ⟨_, rfl⟩
  obtain ⟨res', hres'⟩ : ∃ res', data.2.kzalloc PEACHOS_USER_PROGRAM_STACK_SIZE = res' := ⟨_, rfl⟩
  obtain ⟨hne, hdatap, hne', htask⟩ := process_load_for_slot_inv file filename process_slot uninit process res res' data
    hres hdata hres' hload
  have hg1 := grows_kzalloc hk sizeof_process
  rw [hres] at hg1
  have hk1 : (res.2.setProcess res.1 .zero).HeapOk := heapOk_same (grows_heapOk hg1 hk) rfl
  rcases process_load_data_cases (k := res.2.setProcess res.1 .zero) hk1 file res.1 with
    ⟨hneg, -⟩ | ⟨-, hptr, heq⟩ | ⟨-, hgt, -⟩
  · rw [hdata] at hneg
    exact absurd hneg hdatap
  · have hg2 := grows_kzalloc hk1 file.filesize
    have hblock := heapBlock_grows hg1 _ (heapBlock_kzalloc hk1 file.filesize hptr : HeapBlock res.2 _)
    have hprogram : ((res.2.setProcess res.1 .zero).kzalloc file.filesize).1 = k.programBlock file.filesize := by
      unfold programBlock
      rw [hres, kzalloc_fst, kzalloc_fst]
      rfl
    rw [hdata] at heq
    rw [hprogram] at heq hblock
    generalize ((res.2.setProcess res.1 .zero).kzalloc file.filesize).2 = k2 at *
    -- The stack is another block of the heap.
    have hheap : data.2.heap = k2.heap := by rw [heq]; rfl
    have hp : (data.2.process res.1).ptr = k.programBlock file.filesize ∧
        (data.2.process res.1).size = file.filesize := by
      rw [heq]
      simp [setProcess]
    have hk2 := heapOk_same (grows_heapOk hg2 hk1) hheap
    have hsblock := heapBlock_kzalloc hk2 PEACHOS_USER_PROGRAM_STACK_SIZE (by rw [hres']; exact hne')
    have hg3 := grows_kzalloc hk2 PEACHOS_USER_PROGRAM_STACK_SIZE
    rw [hres'] at hsblock hg3
    have hsblock' : HeapBlock k res'.1 := by
      unfold HeapBlock at *
      rw [hheap, hg2.saddr, hg2.total] at hsblock
      exact heapBlock_grows hg1 _ hsblock
    refine ⟨res.1, _, ?_, htask⟩
    refine ⟨heapOk_same (grows_heapOk hg3 hk2) rfl, ?_, ?_, ?_, ?_⟩
    · simpa [setProcess, hg3.process] using hp.2
    · simpa [setProcess, hg3.process] using hp.1
    · simpa [setProcess, hg3.process, hp.1] using hblock
    · simpa [setProcess] using hsblock'
  · omega

theorem process_load_for_slot_holds (hk : k.HeapOk) (hlow : 0x400000 ≤ k.heap.saddr)
    (hend : k.heap.saddr + k.heap.table.total * 4096 + 0x5000 ≤ 2 ^ 32) (file : ProgramFile) (filename : Nat → UInt8)
    (process_slot : Int) (uninit process : Nat) (hstat : file.stat ≤ 0) (hsize : file.filesize < 2 ^ 32)
    (hload : k.process_load_for_slot file filename process_slot uninit = (0, process, k')) (hoom : k'.oom = false) :
    ∃ dir table, Recorded k k' file process ∧
      Holds k' (k'.tasks.task (k'.process process).task).page_directory dir table 7
        (programMap (k'.process process)) := by
  obtain ⟨p, k1, hrec, htask⟩ := process_load_for_slot_recorded hk file filename process_slot uninit process hstat hload
  obtain ⟨hpal, hplow, hpend⟩ := hrec.program
  obtain ⟨hsal, -, hsend⟩ := hrec.stack
  obtain ⟨k2, dir, table, heq, hk2, hp, hheld⟩ := process_load_task_holds hrec.heap p process_slot hpal hsal (by omega)
    (by omega) (by rw [hrec.size]; exact hsize) (by omega) (by rw [htask]; exact hoom)
  obtain ⟨-, rfl, rfl⟩ : (0 : Int) = 0 ∧ process = p ∧ k' = k2 := by
    simpa only [Prod.mk.injEq] using htask.symm.trans heq
  have hmap : programMap (k'.process process) = programMap (k1.process process) := by
    rw [hp]
    rfl
  rw [← hmap] at hheld
  refine ⟨dir, table, ⟨hk2, ?_, ?_, ?_, ?_⟩, hheld⟩ <;> rw [hp]
  · exact hrec.size
  · exact hrec.ptr
  · exact hrec.program
  · exact hrec.stack

/-! ## Where the pages are -/

section Pages

variable {process : Nat} (hk : k.HeapOk)
  (h : Holds k (k.tasks.task (k.process process).task).page_directory dir table 7 (programMap (k.process process)))

include hk h

theorem userAddress_program (hal : (k.process process).ptr % 4096 = 0) (va : Nat)
    (hva : ProgramPage (k.process process).size va)
    (hfits : (k.process process).ptr + (k.process process).size + 4096 ≤ 2 ^ 32)
    (hlow : 0x400000 ≤ (k.process process).ptr) :
    k.userAddress (k.process process).task va = some ((k.process process).ptr + (va - 0x400000)) := by
  unfold ProgramPage pages at hva
  rw [show PEACHOS_PROGRAM_VIRTUAL_ADDRESS = 0x400000 from rfl] at hva
  unfold userAddress
  rw [h.pageDir.chunk_eq, Nat.mod_eq_of_lt (by omega)]
  apply page_walk_reaches hk h _ _ (by omega)
  refine ⟨⟨⟨by omega, by omega⟩, 7, by decide, by decide, ?_⟩, by omega⟩
  unfold programMap
  rw [if_neg (by omega), if_pos ⟨⟨by omega, by omega⟩, hfits⟩]
  rw [show (k.process process).ptr + (va - 0x400000) - ((k.process process).ptr + (va - 0x400000)) % 4096 =
    (k.process process).ptr + (va - va % 4096 - 0x400000) by omega]

theorem userAddress_self (va : Nat) (hva : va < 2 ^ 32) (hstack : ¬ UserStackPage va)
    (hprogram : (k.process process).ptr + (k.process process).size + 4096 ≤ 2 ^ 32 →
      ¬ ProgramPage (k.process process).size va) :
    k.userAddress (k.process process).task va = some va := by
  unfold ProgramPage pages at hprogram
  unfold UserStackPage at hstack
  rw [show PEACHOS_PROGRAM_VIRTUAL_ADDRESS = 0x400000 from rfl] at hprogram
  rw [show PEACHOS_PROGRAM_VIRTUAL_STACK_ADDRESS_END = 0x3FB000 from rfl,
    show PEACHOS_PROGRAM_VIRTUAL_STACK_ADDRESS_START = 0x3FF000 from rfl] at hstack
  unfold userAddress
  rw [h.pageDir.chunk_eq, Nat.mod_eq_of_lt hva]
  apply page_walk_reaches hk h _ _ hva
  refine ⟨⟨⟨by omega, by omega⟩, 5, by decide, by decide, ?_⟩, rfl⟩
  unfold programMap
  rw [if_neg (by omega), if_neg]
  rintro ⟨hin, hfits⟩
  exact hprogram hfits ⟨by omega, by omega⟩

end Pages

/-- A program that is loaded leaves the pages of the kernel mapped to themselves exactly if it ends before the interrupt
stack, or if it is not mapped at all because the end of its block is beyond 2^32. -/
theorem load_keeps_kernel_iff (hk : k.HeapOk) (hsaddr : k.heap.saddr = PEACHOS_HEAP_ADDRESS)
    (htotal : k.heap.table.total * PEACHOS_HEAP_BLOCK_SIZE = PEACHOS_HEAP_SIZE_BYTES) (file : ProgramFile)
    (filename : Nat → UInt8) (uninit process : Nat) (hstat : file.stat ≤ 0) (hsize : file.filesize < 2 ^ 32)
    (depth : Nat) (h1 : 1 ≤ depth) (hdepth : depth ≤ 512)
    (hload : k.process_load file filename uninit = (0, process, k')) (hoom : k'.oom = false) :
    k'.KeepsKernel process depth ↔
      pages file.filesize + depth * PAGING_PAGE_SIZE ≤ tss_esp0 - PEACHOS_PROGRAM_VIRTUAL_ADDRESS ∨
        2 ^ 32 < k.programBlock file.filesize + file.filesize + 4096 := by
  rw [show PEACHOS_HEAP_ADDRESS = 0x1000000 from rfl] at hsaddr
  rw [show PEACHOS_HEAP_BLOCK_SIZE = 4096 from rfl, show PEACHOS_HEAP_SIZE_BYTES = 104857600 from rfl] at htotal
  have hslot : k.process_load_for_slot file filename k.process_get_free_slot uninit = (0, process, k') := by
    unfold process_load at hload
    dsimp only at hload
    split at hload
    · exact absurd (Prod.mk.inj hload).1 (by decide)
    · exact hload
  obtain ⟨dir, table, hrec, hheld⟩ := process_load_for_slot_holds hk (by omega)
    (by omega) file filename _ uninit process hstat hsize hslot hoom
  obtain ⟨hal, hlow, hend⟩ := hrec.program
  have hprogram := userAddress_program hrec.heap hheld hal
  have hself := userAddress_self hrec.heap hheld
  rw [hrec.size] at hprogram hself
  rw [← hrec.ptr]
  unfold tss_esp0 PAGING_PAGE_SIZE
  rw [show PEACHOS_PROGRAM_VIRTUAL_ADDRESS = 0x400000 from rfl]
  constructor
  · intro h
    by_contra hno
    rw [not_or] at hno
    -- The lowest page of the stack is a page of the program, whose block is elsewhere.
    have hstack := h.stack (0x600000 - depth * 4096) (Nat.le_refl _) (by unfold tss_esp0; omega)
    rw [hprogram (0x600000 - depth * 4096) ⟨show 0x400000 ≤ _ by omega, show _ < 0x400000 + _ by omega⟩
      (by omega) (by omega), Option.some.injEq] at hstack
    omega
  · intro hor
    have habove : ∀ va, 0x600000 - depth * 4096 ≤ va → va < 2 ^ 32 →
        k'.userAddress (k'.process process).task va = some va := by
      intro va hle hlt
      apply hself va hlt
      · rintro ⟨-, hstack⟩
        rw [show PEACHOS_PROGRAM_VIRTUAL_STACK_ADDRESS_START = 0x3FF000 from rfl] at hstack
        omega
      · rintro hfits ⟨-, hin⟩
        rw [show PEACHOS_PROGRAM_VIRTUAL_ADDRESS = 0x400000 from rfl] at hin
        omega
    refine ⟨?_, ?_, ?_⟩
    · intro va hle hlt
      unfold tss_esp0 PAGING_PAGE_SIZE at hle
      unfold tss_esp0 at hlt
      exact habove va hle (by omega)
    · intro va hle hlt
      rw [show PEACHOS_HEAP_ADDRESS = 0x1000000 from rfl] at hle hlt
      rw [show PEACHOS_HEAP_SIZE_BYTES = 104857600 from rfl] at hlt
      exact habove va (by omega) (by omega)
    · rintro va ⟨hle, -⟩ ⟨-, hlt⟩
      exact absurd (Nat.lt_of_le_of_lt hle hlt) (by decide)

theorem tinyProgram_keeps : ∃ process k, bootLoad = (0, process, k) ∧ k.KeepsKernel process 1 := by
  obtain ⟨process, k, dir, table, hload, hroom, -⟩ := bootLoad_spec
  refine ⟨process, k, hload, ?_⟩
  apply (load_keeps_kernel_iff bootKernel_room.heap rfl rfl tinyProgram (fun _ => 0) 0 process (by decide) (by decide) 1
    (by decide) (by decide) hload hroom.oom).mpr
  exact Or.inl (by decide)

/-- A program of 2 MiB. -/
def largeProgram : ProgramFile := ⟨true, 0, 0x200000, 1, fun _ => 0⟩

/-- It is mapped over the page below `tss.esp0`. -/
theorem largeProgram_overlaps : ∃ process k, bootKernel.process_load largeProgram (fun _ => 0) 0 = (0, process, k) ∧
    k.oom = false ∧ ¬ k.KeepsKernel process 1 := by
  obtain ⟨process, k, heq, hroom⟩ := process_load_for_slot_succeeds largeProgram (fun _ => 0) 0 0 0
    (by decide : bootKernel.process_get 0 = 0) rfl rfl rfl (by decide) (room_le _ _ bootKernel_room (by decide))
  obtain ⟨dir, table, hrec, hheld⟩ := process_load_for_slot_holds bootKernel_room.heap (by decide) (by decide)
    largeProgram (fun _ => 0) 0 0 process (by decide) (by decide) heq hroom.oom
  obtain ⟨hal, hlow, hend⟩ := hrec.program
  have hsize : (k.process process).size = 0x200000 := hrec.size
  have hsaddr : bootKernel.heap.saddr = 0x1000000 := rfl
  have htotal : bootKernel.heap.table.total = 25600 := rfl
  have hslot : bootKernel.process_get_free_slot = 0 := by decide
  refine ⟨process, k, ?_, hroom.oom, ?_⟩
  · unfold process_load
    dsimp only
    rw [hslot, if_neg (by omega)]
    exact heq
  · intro h
    have hstack := h.stack 0x5FF000 (by decide) (by decide)
    rw [userAddress_program hrec.heap hheld hal 0x5FF000 (by rw [hsize]; exact ⟨by decide, by decide⟩)
      (by omega) (by omega), Option.some.injEq] at hstack
    omega

end PeachOS.Memory
