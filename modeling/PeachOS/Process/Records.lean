import PeachOS.Process.Fork
import PeachOS.Process.Children

/-!
# The kernel refines the process table

Whatever the heap and the memory are, forking, exiting and loading change the table of processes in the way
that `ProcessTable` says.
-/

open PeachOS.Kernel PeachOS.Memory

namespace PeachOS

/-- What the process table shows of the kernel. -/
structure Kernel.Shows (k : Kernel) (t : ProcessTable) : Prop where
  processes : k.processes = t.processes
  process : ∀ x, (k.process x).id = (t.process x).id ∧ (k.process x).task = (t.process x).task

namespace Records

variable {k k' k'' : Kernel} {t : ProcessTable}

/-! ## Functions that leave the processes alone -/

structure SameProcesses (k k' : Kernel) : Prop where
  process : k'.process = k.process
  processes : k'.processes = k.processes

theorem same_trans (h : SameProcesses k k') (h' : SameProcesses k' k'') : SameProcesses k k'' :=
  ⟨h'.process.trans h.process, h'.processes.trans h.processes⟩

theorem same_kzalloc (k : Kernel) (size : Nat) : SameProcesses k (k.kzalloc size).2 := by
  unfold kzalloc
  dsimp only
  split
  · exact ⟨rfl, rfl⟩
  · exact ⟨rfl, rfl⟩

theorem same_mem (k : Kernel) (mem : Nat → UInt8) : SameProcesses k { k with mem := mem } := ⟨rfl, rfl⟩

theorem same_kfree (k : Kernel) (ptr : Nat) : SameProcesses k (k.kfree ptr) := ⟨rfl, rfl⟩

theorem same_tasks (k : Kernel) (tasks : TaskList) : SameProcesses k { k with tasks := tasks } := ⟨rfl, rfl⟩

theorem same_paging_new_loop (directory flags n i : Nat) (offset : Int) (k : Kernel) :
    SameProcesses k (paging_new_loop directory flags n i offset k) := by
  induction n generalizing i offset k with
  | zero => exact ⟨rfl, rfl⟩
  | succ n ih =>
    rw [paging_new_loop]
    exact same_trans (same_trans (same_kzalloc k _) (same_mem _ _)) (ih (i + 1) _ _)

theorem same_paging_new_4gb (k : Kernel) (flags : Nat) : SameProcesses k (k.paging_new_4gb flags).2 := by
  rw [paging_new_4gb_eq k _ flags _ _ rfl rfl rfl]
  exact same_trans (same_trans (same_kzalloc k _) (same_paging_new_loop _ flags _ 0 0 _))
    (same_trans (same_kzalloc _ 4) (same_mem _ _))

theorem same_paging_free_loop (chunk n i : Nat) (k : Kernel) :
    SameProcesses k (paging_free_loop chunk n i k) := by
  induction n generalizing i k with
  | zero => exact ⟨rfl, rfl⟩
  | succ n ih =>
    rw [paging_free_loop]
    exact same_trans (same_kfree k _) (ih (i + 1) _)

theorem same_paging_free_4gb (k : Kernel) (chunk : Nat) : SameProcesses k (k.paging_free_4gb chunk) := by
  rw [paging_free_4gb_eq k _ chunk rfl]
  exact same_trans (same_paging_free_loop chunk _ 0 k) (same_trans (same_kfree _ _) (same_kfree _ _))

theorem same_paging_copy_loop (src dir n i : Nat) (k : Kernel) :
    SameProcesses k (paging_copy_loop src dir n i k).2 := by
  induction n generalizing i k with
  | zero => exact ⟨rfl, rfl⟩
  | succ n ih =>
    have hz := same_kzalloc k (4 * PAGING_TOTAL_ENTRIES_PER_TABLE)
    rw [paging_copy_loop]
    dsimp only
    split
    · exact hz
    · exact same_trans (same_trans hz (same_mem _ _)) (ih (i + 1) _)

theorem same_paging_copy_4gb (k : Kernel) (src : Nat) : SameProcesses k (k.paging_copy_4gb src).2 := by
  obtain ⟨res, hres⟩ : ∃ res, k.kzalloc 4 = res := ⟨_, rfl⟩
  obtain ⟨res', hres'⟩ : ∃ res', res.2.kzalloc (4 * PAGING_TOTAL_ENTRIES_PER_TABLE) = res' := ⟨_, rfl⟩
  obtain ⟨res'', hres''⟩ : ∃ res'', paging_copy_loop src res'.1 PAGING_TOTAL_ENTRIES_PER_TABLE 0
    { res'.2 with mem := write32 res'.2.mem res.1 res'.1 } = res'' := ⟨_, rfl⟩
  have h1 : SameProcesses k res.2 := hres ▸ same_kzalloc k 4
  have h2 : SameProcesses k res'.2 := same_trans h1 (hres' ▸ same_kzalloc res.2 _)
  have h3 : SameProcesses k res''.2 :=
    same_trans (same_trans h2 (same_mem _ _)) (hres'' ▸ same_paging_copy_loop src _ _ 0 _)
  rw [paging_copy_4gb_eq k src res res' res'' hres hres' hres'']
  split
  · exact h1
  split
  · exact same_trans h2 (same_kfree _ _)
  split
  · exact h3
  · exact h3

theorem same_task_free (k : Kernel) (task : Nat) : SameProcesses k (k.task_free task) := by
  obtain ⟨k', hk'⟩ : ∃ k', k.paging_free_4gb (k.tasks.task task).page_directory = k' := ⟨_, rfl⟩
  have h : SameProcesses k k' := hk' ▸ same_paging_free_4gb k _
  unfold task_free
  rw [hk']
  exact same_trans (same_trans h (same_tasks _ _)) (same_kfree _ _)

theorem task_init_res (process page_directory : Nat) :
    (task_init process page_directory).1 = if page_directory = 0 then - EIO else 0 := by
  unfold task_init
  dsimp only
  split
  · rfl
  · rfl

theorem same_task_new (k : Kernel) (process : Nat) :
    SameProcesses k (k.task_new process).2 ∧ (k.task_new process).1 ≠ 0 := by
  obtain ⟨res, hres⟩ : ∃ res, k.kzalloc sizeof_task = res := ⟨_, rfl⟩
  obtain ⟨res', hres'⟩ : ∃ res', res.2.paging_new_4gb (PAGING_IS_PRESENT ||| PAGING_ACCESS_FROM_ALL) = res' :=
    ⟨_, rfl⟩
  have h1 : SameProcesses k res.2 := hres ▸ same_kzalloc k _
  have h2 : SameProcesses k res'.2 := same_trans h1 (hres' ▸ same_paging_new_4gb res.2 _)
  rw [task_new_eq k process res res' hres hres']
  split
  · exact ⟨same_trans h1 (same_task_free _ _), show u32 (-ENOMEM) ≠ 0 by decide⟩
  rename_i hne
  dsimp only
  split
  · rename_i hinit
    refine ⟨same_trans (same_trans h2 (same_tasks _ _)) (same_task_free _ _), ?_⟩
    rw [task_init_res] at hinit ⊢
    split at hinit
    · rw [if_pos (by assumption)]
      show u32 (- EIO) ≠ 0
      decide
    · exact absurd hinit (by decide)
  · exact ⟨same_trans h2 (same_tasks _ _), hne⟩

/-! ## Forking -/

theorem shows_same (h : k.Shows t) (hs : SameProcesses k k') : k'.Shows t :=
  ⟨hs.processes.trans h.processes, fun x => by rw [hs.process]; exact h.process x⟩

theorem shows_setProcess (h : k.Shows t) (a : Nat) (p : Process) (hid : p.id = (k.process a).id)
    (htask : p.task = (k.process a).task) : (k.setProcess a p).Shows t := by
  refine ⟨h.processes, ?_⟩
  intro x
  by_cases hx : x = a
  · subst hx
    simp only [Kernel.setProcess, if_true, hid, htask]
    exact h.process x
  · simp only [Kernel.setProcess, if_neg hx]
    exact h.process x

theorem shows_setBoth (h : k.Shows t) (a : Nat) (p : Process) (e : ProcessEntry) (hid : p.id = e.id)
    (htask : p.task = e.task) : (k.setProcess a p).Shows (t.setProcess a e) := by
  refine ⟨h.processes, ?_⟩
  intro x
  by_cases hx : x = a
  · simp only [Kernel.setProcess, ProcessTable.setProcess, if_pos hx]
    exact ⟨hid, htask⟩
  · simp only [Kernel.setProcess, ProcessTable.setProcess, if_neg hx]
    exact h.process x

/-- A fork of the kernel, or a part of it, with result `r`, and the same part of a fork of the table. -/
structure ForkShows (r : Int × Nat × Kernel) (r' : Int × Nat × ProcessTable) (child : Nat) : Prop where
  res : r.1 = r'.1
  out : r.2.1 = r'.2.1
  shows : r.2.2.Shows r'.2.2
  eax : r.1 = 0 → (r.2.2.tasks.task (r.2.2.process child).task).registers.eax = 0

theorem forkShows_failed (h : k.Shows t) (child : Nat) (e : Int) (he : e ≠ 0) :
    ForkShows (e, 0, k) (e, 0, t) child :=
  ⟨rfl, rfl, h, fun h0 => absurd h0 he⟩

theorem fork_finish_shows (h : k.Shows t) (parent child slot : Nat) (memory : ForkMemory)
    (htask : (k.process child).task = memory.child_task) :
    ForkShows (k.process_fork_finish parent child slot memory.child_task memory.page_directory)
      (t.process_fork_finish child slot memory) child := by
  unfold process_fork_finish ProcessTable.process_fork_finish
  dsimp only
  by_cases hd : memory.page_directory = 0
  · rw [if_pos hd, if_pos hd]
    exact forkShows_failed (shows_same h (same_tasks _ _)) child (-ENOMEM) (by decide)
  · rw [if_neg hd, if_neg hd]
    refine ⟨rfl, rfl, ⟨?_, h.process⟩, fun _ => ?_⟩
    · funext i
      dsimp only
      rw [h.processes]
    · dsimp only [TaskList.set]
      rw [htask, if_pos rfl]

theorem fork_task_shows (h : k.Shows t) (parent child slot : Nat) :
    ∃ memory : ForkMemory, memory.child_task ≠ 0 ∧
      ForkShows (k.process_fork_task parent child slot) (t.process_fork_task child slot memory) child := by
  obtain ⟨res, hres⟩ : ∃ res, k.task_new child = res := ⟨_, rfl⟩
  obtain ⟨hsame, hne⟩ := same_task_new k child
  rw [hres] at hsame hne
  obtain ⟨k1, hk1⟩ : ∃ k1, res.2.setProcess child { res.2.process child with task := res.1 } = k1 := ⟨_, rfl⟩
  obtain ⟨k2, hk2⟩ : ∃ k2, k1.paging_free_4gb (k1.tasks.task res.1).page_directory = k2 := ⟨_, rfl⟩
  obtain ⟨res', hres'⟩ : ∃ res',
    k2.paging_copy_4gb (k2.tasks.task (k2.process parent).task).page_directory = res' := ⟨_, rfl⟩
  rw [process_fork_task_eq k k1 k2 parent child slot res res' hres hne hk1 hk2 hres']
  have h1 : k1.Shows (t.setProcess child { t.process child with task := res.1 }) := by
    rw [← hk1]
    apply shows_setBoth (shows_same h hsame)
    · exact ((shows_same h hsame).process child).1
    · rfl
  have h2 : SameProcesses k1 k2 := hk2 ▸ same_paging_free_4gb k1 _
  have h3 : SameProcesses k1 res'.2 := same_trans h2 (hres' ▸ same_paging_copy_4gb k2 _)
  have htask : (res'.2.process child).task = res.1 := by
    rw [h3.process, ← hk1]
    simp only [Kernel.setProcess, if_true]
  refine ⟨⟨0, 0, 0, res.1, res'.1⟩, hne, ?_⟩
  unfold ProcessTable.process_fork_task
  rw [if_neg hne]
  exact fork_finish_shows (shows_same h1 h3) parent child slot ⟨0, 0, 0, res.1, res'.1⟩ htask

theorem same_childSet {child : Nat} {p : Process} (h : ChildSet k k' child p) :
    SameProcesses (k.setProcess child p) k' :=
  ⟨h.process, h.processes⟩

theorem shows_childSet {child : Nat} {p : Process} (h : k.Shows t) (hset : ChildSet k k' child p)
    (hid : p.id = (k.process child).id) (htask : p.task = (k.process child).task) : k'.Shows t :=
  shows_same (shows_setProcess h child p hid htask) (same_childSet hset)

theorem fork_stack_shows (h : k.Shows t) (parent child slot : Nat) :
    ∃ memory : ForkMemory, memory.child_task ≠ 0 ∧
      ForkShows (k.process_fork_stack parent child slot)
        (if memory.stack = 0 then (-ENOMEM, 0, t) else
          (t.setProcess child { t.process child with id := u16 slot }).process_fork_task child slot memory)
        child := by
  obtain ⟨n, hn⟩ : ∃ n, PEACHOS_USER_PROGRAM_STACK_SIZE = n := ⟨_, rfl⟩
  obtain ⟨res, hres⟩ : ∃ res, k.kzalloc n = res := ⟨_, rfl⟩
  have hsame : SameProcesses k res.2 := hres ▸ same_kzalloc k n
  have h1 := shows_same h hsame
  rcases process_fork_stack_cases k parent child slot n hn res hres with
    ⟨-, k1, heq, hset⟩ | ⟨h0, k1, _, _, heq, -, hset⟩
  · refine ⟨⟨0, 0, 0, 1, 0⟩, by decide, ?_⟩
    rw [heq, if_pos rfl]
    exact forkShows_failed (shows_childSet h1 hset rfl rfl) child _ (by decide)
  · have h2 : k1.Shows (t.setProcess child { t.process child with id := u16 slot }) := by
      apply shows_same _ (same_childSet hset)
      exact shows_setBoth h1 child _ _ rfl (h1.process child).2
    obtain ⟨memory, htask, hfork⟩ := fork_task_shows h2 parent child slot
    refine ⟨{ memory with stack := res.1 }, htask, ?_⟩
    rw [heq, if_neg h0]
    exact hfork

theorem fork_memory_shows (h : k.Shows t) (parent child slot : Nat) :
    ∃ memory : ForkMemory, memory.child_task ≠ 0 ∧
      ForkShows (k.process_fork_memory parent child slot)
        (if memory.ptr = 0 then (-ENOMEM, 0, t) else if memory.stack = 0 then (-ENOMEM, 0, t) else
          (t.setProcess child { t.process child with id := u16 slot }).process_fork_task child slot memory)
        child := by
  obtain ⟨res, hres⟩ : ∃ res, k.kzalloc (k.process parent).size = res := ⟨_, rfl⟩
  have hsame : SameProcesses k res.2 := hres ▸ same_kzalloc k _
  have h1 := shows_same h hsame
  rcases process_fork_memory_cases k parent child slot res hres with
    ⟨-, k1, heq, hset⟩ | ⟨h0, k1, _, heq, -, hset⟩
  · refine ⟨⟨0, 0, 0, 1, 0⟩, by decide, ?_⟩
    rw [heq, if_pos rfl]
    exact forkShows_failed (shows_childSet h1 hset rfl rfl) child _ (by decide)
  · obtain ⟨memory, htask, hfork⟩ := fork_stack_shows (shows_childSet h1 hset rfl rfl) parent child slot
    refine ⟨{ memory with ptr := res.1 }, htask, ?_⟩
    rw [heq, if_neg h0]
    exact hfork

theorem free_slot_shows (h : k.Shows t) : k.process_get_free_slot = t.process_get_free_slot := by
  have hloop : ∀ n i, k.process_get_free_slot_loop n i = t.process_get_free_slot_loop n i := by
    intro n
    induction n with
    | zero => exact fun i => rfl
    | succ n ih =>
      intro i
      rw [Kernel.process_get_free_slot_loop, ProcessTable.process_get_free_slot_loop, h.processes, ih]
  exact hloop _ _

theorem process_fork_shows (h : k.Shows t) (parent : Nat) :
    ∃ memory : ForkMemory, memory.child = (k.kzalloc sizeof_process).1 ∧ memory.child_task ≠ 0 ∧
      ForkShows (k.process_fork parent) (t.process_fork memory) memory.child := by
  obtain ⟨res, hres⟩ : ∃ res, k.kzalloc sizeof_process = res := ⟨_, rfl⟩
  have hsame : SameProcesses k res.2 := hres ▸ same_kzalloc k _
  unfold Kernel.process_fork ProcessTable.process_fork
  rw [hres, free_slot_shows h]
  dsimp only
  by_cases hslot : t.process_get_free_slot < 0
  · refine ⟨⟨res.1, 0, 0, 1, 0⟩, rfl, Nat.one_ne_zero, ?_⟩
    rw [if_pos hslot, if_pos hslot]
    exact forkShows_failed h _ _ (by decide)
  rw [if_neg hslot]
  obtain ⟨slot, heq⟩ : ∃ slot : Nat, t.process_get_free_slot = slot :=
    ⟨t.process_get_free_slot.toNat, by omega⟩
  by_cases h0 : res.1 = 0
  · refine ⟨⟨res.1, 0, 0, 1, 0⟩, rfl, Nat.one_ne_zero, ?_⟩
    rw [if_pos h0, if_neg hslot, if_pos h0]
    exact forkShows_failed (shows_same h hsame) _ _ (by decide)
  · rw [if_neg h0, heq, Int.toNat_natCast]
    obtain ⟨memory, htask, hfork⟩ := fork_memory_shows
      (shows_setBoth (shows_same h hsame) res.1 .zero ⟨0, 0⟩ rfl rfl) parent res.1 slot
    refine ⟨{ memory with child := res.1 }, rfl, htask, ?_⟩
    rw [if_neg (by omega), if_neg h0]
    exact hfork

/-! ## Exiting and loading -/

theorem process_free_shows (h : k.Shows t) (process : Nat) :
    (k.process_free process).Shows (t.process_free process) := by
  obtain ⟨k1, hk1⟩ : ∃ k1, k.task_free (k.process process).task = k1 := ⟨_, rfl⟩
  have hsame : SameProcesses k k1 := hk1 ▸ same_task_free k _
  have h1 := shows_same h hsame
  unfold Kernel.process_free ProcessTable.process_free
  rw [hk1]
  by_cases h0 : process = 0
  · rw [if_pos h0, if_pos h0]
    exact h
  · rw [if_neg h0, if_neg h0]
    refine ⟨?_, h1.process⟩
    funext i
    show (if i = (k1.process process).id then 0 else k1.processes i) = _
    rw [(h1.process process).1, h1.processes]

theorem load_task_processes (k : Kernel) (process : Nat) (slot : Int) (out : Nat)
    (h : k.process_load_task process slot = (0, out, k')) (hout : out ≠ 0) :
    out = process ∧ (∀ i, k'.processes i = if i = slot.toNat then process else k.processes i) ∧
      (k'.process process).id = (k.process process).id := by
  obtain ⟨res, hres⟩ : ∃ res, k.task_new process = res := ⟨_, rfl⟩
  obtain ⟨hsame, hne⟩ := same_task_new k process
  rw [hres] at hsame hne
  rw [process_load_task_eq k process slot res hres, if_neg hne] at h
  dsimp only at h
  obtain ⟨mem, hmap⟩ := process_map_memory_result
    (res.2.setProcess process { res.2.process process with task := res.1 }) process
  rw [hmap, if_neg (Int.lt_irrefl 0)] at h
  simp only [Prod.mk.injEq, true_and] at h
  obtain ⟨rfl, rfl⟩ := h
  refine ⟨rfl, ?_, ?_⟩
  · intro i
    dsimp only [Kernel.setProcess]
    rw [hsame.processes]
  · dsimp only [Kernel.setProcess]
    rw [if_pos rfl, hsame.process]

theorem load_data_processes (k : Kernel) (file : ProgramFile) (process : Nat) :
    (k.process_load_data file process).2.processes = k.processes := by
  have hz := same_kzalloc k file.filesize
  unfold process_load_data process_load_binary
  split
  · rfl
  split
  · rfl
  dsimp only
  split
  · exact hz.processes
  split
  · exact hz.processes
  · exact hz.processes

theorem process_load_booted (k : Kernel) (file : ProgramFile) (filename : Nat → UInt8) (uninit out : Nat)
    (hempty : ∀ i < PEACHOS_MAX_PROCESSES, k.processes i = 0)
    (h : k.process_load file filename uninit = (0, out, k')) (hout : out ≠ 0) (ht : k'.Shows t) :
    t.Booted := by
  have hslot : k.process_get_free_slot = 0 := if_pos (hempty 0 (by decide))
  obtain ⟨res, hres⟩ : ∃ res, k.kzalloc sizeof_process = res := ⟨_, rfl⟩
  obtain ⟨data, hdata⟩ : ∃ data, (res.2.setProcess res.1 .zero).process_load_data file res.1 = data :=
    ⟨_, rfl⟩
  obtain ⟨res', hres'⟩ : ∃ res', data.2.kzalloc PEACHOS_USER_PROGRAM_STACK_SIZE = res' := ⟨_, rfl⟩
  have hprocesses : res'.2.processes = k.processes := by
    rw [← hres', (same_kzalloc _ _).processes, ← hdata, load_data_processes, ← hres]
    exact (same_kzalloc k _).processes
  unfold process_load at h
  rw [hslot] at h
  dsimp only at h
  rw [if_neg (by decide), process_load_for_slot_eq k file filename 0 uninit res res' data hres hdata hres'] at h
  have hzero : ∀ (e : Int) (k1 : Kernel), (e, 0, k1) ≠ ((0 : Int), out, k') := by
    intro e k1 heq
    exact hout (congrArg (fun r : Int × Nat × Kernel => r.2.1) heq).symm
  split at h
  · exact absurd h (hzero _ _)
  split at h
  · exact absurd h (hzero _ _)
  split at h
  · exact absurd h (hzero _ _)
  split at h
  · exact absurd h (hzero _ _)
  dsimp only at h
  obtain ⟨rfl, hslots, hid⟩ := load_task_processes _ _ _ out h hout
  simp only [Int.toNat_zero] at hslots
  refine ⟨?_, ?_, ?_⟩
  · rw [← ht.processes, hslots, if_pos rfl]
    exact hout
  · rw [← ht.processes, hslots, if_pos rfl, ← (ht.process _).1, hid]
    simp only [Kernel.setProcess, if_true]
    decide
  · intro i hi hne
    rw [← ht.processes, hslots, if_neg hne]
    show res'.2.processes i = 0
    rw [hprocesses, hempty i hi]

end Records

/-! ## Runs -/

/-- A call that processes make, without what the allocations return. -/
inductive KernelCall
  | fork (parent : Nat)
  | exit (process : Nat)
  | wait (process : Nat) (pid : Int)

def Kernel.step (k : Kernel) : KernelCall → Kernel
  | .fork parent => (k.process_fork parent).2.2
  | .exit process => k.process_free process
  | .wait _ _ => k

def ProcessCall.kernel : ProcessCall → KernelCall
  | .fork parent _ => .fork parent
  | .exit process => .exit process
  | .wait process pid => .wait process pid

namespace Records

theorem sys_fork_table (t : ProcessTable) (memory : ForkMemory) :
    (t.isr80h_command4_fork memory).2 = (t.process_fork memory).2.2 := by
  unfold ProcessTable.isr80h_command4_fork
  dsimp only
  split
  · rfl
  · rfl

theorem step_shows {k : Kernel} (s : ProcessSys) (h : k.Shows s.table) (c : KernelCall) :
    ∃ c' : ProcessCall, c'.kernel = c ∧ (k.step c).Shows (s.step c').table := by
  cases c with
  | fork parent =>
    obtain ⟨memory, -, -, hfork⟩ := process_fork_shows h parent
    refine ⟨.fork parent memory, rfl, ?_⟩
    show (k.process_fork parent).2.2.Shows (s.table.isr80h_command4_fork memory).2
    rw [sys_fork_table]
    exact hfork.shows
  | exit process => exact ⟨.exit process, rfl, process_free_shows h process⟩
  | wait process pid => exact ⟨.wait process pid, rfl, h⟩

/-- Every run of the kernel is a run of the process table. -/
theorem run_shows {k : Kernel} (s : ProcessSys) (h : k.Shows s.table) (calls : List KernelCall) :
    ∃ calls' : List ProcessCall, calls'.map ProcessCall.kernel = calls ∧
      (calls.foldl Kernel.step k).Shows (calls'.foldl ProcessSys.step s).table := by
  induction calls generalizing k s with
  | nil => exact ⟨[], rfl, h⟩
  | cons c calls ih =>
    obtain ⟨c', hc, hstep⟩ := step_shows s h c
    obtain ⟨calls', hmap, hrun⟩ := ih (s.step c') hstep
    refine ⟨c' :: calls', ?_, hrun⟩
    rw [List.map_cons, hc, hmap]

end Records

end PeachOS
