import PeachOS.Process.Load
import PeachOS.Spec.UserMode

/-!
# Forking

The child of `process_fork` gets a copy of the program and of the stack, and a copy of the page tables of
its parent. The copied tables still name the pages of the parent.
-/

open PeachOS.Lib PeachOS.Blocks PeachOS.Kernel

namespace PeachOS.Memory

variable {k k' : Kernel} {dir : Nat} {table : Nat → Nat}

/-! ## The task of the child -/

theorem paging_copy_4gb_oom (k : Kernel) (src : Nat) (h : (k.paging_copy_4gb src).2.oom = false) :
    k.oom = false := by
  obtain ⟨res, hres⟩ : ∃ res, k.kzalloc 4 = res := ⟨_, rfl⟩
  obtain ⟨res', hres'⟩ : ∃ res', res.2.kzalloc (4 * PAGING_TOTAL_ENTRIES_PER_TABLE) = res' := ⟨_, rfl⟩
  obtain ⟨res'', hres''⟩ : ∃ res'', paging_copy_loop src res'.1 PAGING_TOTAL_ENTRIES_PER_TABLE 0
    { res'.2 with mem := write32 res'.2.mem res.1 res'.1 } = res'' := ⟨_, rfl⟩
  rw [paging_copy_4gb_eq k src res res' res'' hres hres' hres''] at h
  have hlast : res'.2.oom = false → res.2.oom = false := fun h' => by
    rw [← hres'] at h'
    exact (kzalloc_oom _ _ h').1
  have hloop : res''.2.oom = false → res'.2.oom = false := fun h' => by
    rw [← hres''] at h'
    have := paging_copy_loop_oom _ _ _ _ _ h'
    exact this
  have hfirst : res.2.oom = false := by
    split at h
    · exact h
    · split at h
      · exact hlast h
      · split at h
        · exact hlast (hloop h)
        · exact hlast (hloop h)
  rw [← hres] at hfirst
  exact (kzalloc_oom _ _ hfirst).1

theorem process_fork_directory_eq (k k1 k2 : Kernel) (parent child slot task : Nat) (res : Nat × Kernel)
    (h1 : k.setProcess child { k.process child with task := task } = k1)
    (h2 : k1.paging_free_4gb (k1.tasks.task task).page_directory = k2)
    (h : k2.paging_copy_4gb (k2.tasks.task (k2.process parent).task).page_directory = res) :
    k.process_fork_directory parent child slot task =
      res.2.process_fork_finish parent child slot task res.1 := by
  unfold process_fork_directory
  rw [h1]
  dsimp only
  rw [h2, h]

theorem process_fork_finish_oom (k : Kernel) (parent child slot task directory : Nat) :
    (k.process_fork_finish parent child slot task directory).2.2.oom = k.oom := by
  unfold process_fork_finish
  dsimp only
  split
  · rfl
  · rfl

theorem process_fork_directory_oom (k : Kernel) (parent child slot task : Nat)
    (h : (k.process_fork_directory parent child slot task).2.2.oom = false) : k.oom = false := by
  obtain ⟨k1, hk1⟩ : ∃ k1, k.setProcess child { k.process child with task := task } = k1 := ⟨_, rfl⟩
  obtain ⟨k2, hk2⟩ : ∃ k2, k1.paging_free_4gb (k1.tasks.task task).page_directory = k2 := ⟨_, rfl⟩
  obtain ⟨res, hres⟩ : ∃ res,
    k2.paging_copy_4gb (k2.tasks.task (k2.process parent).task).page_directory = res := ⟨_, rfl⟩
  rw [process_fork_directory_eq k k1 k2 parent child slot task res hk1 hk2 hres, process_fork_finish_oom,
    ← hres] at h
  have h2 := paging_copy_4gb_oom _ _ h
  rw [← hk2, paging_free_4gb_oom, ← hk1] at h2
  exact h2

theorem process_fork_task_eq (k k1 k2 : Kernel) (parent child slot : Nat) (res res' : Nat × Kernel)
    (h : k.task_new child = res) (hne : res.1 ≠ 0)
    (h1 : res.2.setProcess child { res.2.process child with task := res.1 } = k1)
    (h2 : k1.paging_free_4gb (k1.tasks.task res.1).page_directory = k2)
    (h' : k2.paging_copy_4gb (k2.tasks.task (k2.process parent).task).page_directory = res') :
    k.process_fork_task parent child slot = res'.2.process_fork_finish parent child slot res.1 res'.1 := by
  unfold process_fork_task
  rw [h]
  dsimp only
  rw [if_neg hne]
  exact process_fork_directory_eq res.2 k1 k2 parent child slot res.1 res' h1 h2 h'

/-- The state `k2` in which the directory from `task_new` has been given back. `kt` is the state in which it was
built. -/
structure DirFreed (k kt k2 : Kernel) (child task : Nat) : Prop where
  since : kt.Since k2
  process : k2.process = (k.setProcess child { k.process child with task := task }).process
  processes : k2.processes = k.processes
  other : ∀ x, x ≠ task → (k2.tasks.task x).page_directory = (k.tasks.task x).page_directory

theorem newTask_dir_freed {kt k1 k2 : Kernel} {task chunk : Nat} (hk : k.HeapOk) (child : Nat)
    (h : NewTask k k' task kt chunk dir table)
    (h1 : k'.setProcess child { k'.process child with task := task } = k1)
    (h2 : k1.paging_free_4gb (k1.tasks.task task).page_directory = k2) : DirFreed k kt k2 child task := by
  have hs1 : k'.Since k1 := by
    rw [← h1]
    exact since_same rfl rfl
  have ht1 : k1.tasks = k'.tasks := by
    rw [← h1]
    rfl
  obtain ⟨hs2, -, hsame⟩ := paging_free_4gb_spec (since_heapOk h.since hk) (newDir_since h.newDir hs1)
  rw [ht1, h.own] at h2
  rw [h2] at hs2 hsame
  refine ⟨hs2, ?_, ?_, ?_⟩
  · rw [hsame.process, ← h1]
    unfold setProcess
    rw [h.process]
  · rw [hsame.processes, ← h1]
    exact h.processes
  · intro x hx
    rw [hsame.tasks, ht1]
    exact h.other x hx

/-- The state after `process_fork_task`: the child has a task with a directory of its own in new pages, and
its tables have the bytes of the tables of the parent. -/
structure ForkedTask (k k' : Kernel) (parent child slot task chunk cdir : Nat) (table ctable : Nat → Nat) :
    Prop where
  newDir : NewDir k k' chunk cdir ctable 7 fun i o => k.mem (table i + o)
  process : k'.process = (k.setProcess child { k.process child with task := task }).process
  processes : ∀ i, k'.processes i = if i = slot then child else k.processes i
  parent_directory : (k'.tasks.task (k.process parent).task).page_directory =
    (k.tasks.task (k.process parent).task).page_directory
  child_directory : (k'.tasks.task task).page_directory = chunk
  eax : (k'.tasks.task task).registers.eax = 0

theorem process_fork_task_spec (hk : k.HeapOk) (parent child slot : Nat)
    (hdir : PageDir k (k.tasks.task (k.process parent).task).page_directory dir table 7)
    (htask : k.UsedAt (k.process parent).task) (hne : parent ≠ child)
    (hoom : (k.process_fork_task parent child slot).2.2.oom = false) :
    k.oom = false ∧ ∃ k' task chunk cdir ctable,
      k.process_fork_task parent child slot = (0, child, k') ∧
      ForkedTask k k' parent child slot task chunk cdir table ctable := by
  obtain ⟨res, hres⟩ : ∃ res, k.task_new child = res := ⟨_, rfl⟩
  have hnew : (k.task_new child).2.oom = false := by
    unfold process_fork_task at hoom
    rw [hres] at hoom ⊢
    dsimp only at hoom
    split at hoom
    · exact hoom
    · exact process_fork_directory_oom _ _ _ _ _ hoom
  obtain ⟨hk0, hne0, kt, chunk0, dir0, table0, ht⟩ := task_new_spec hk child hnew
  rw [hres] at hne0 ht
  obtain ⟨k1, hk1⟩ : ∃ k1, res.2.setProcess child { res.2.process child with task := res.1 } = k1 := ⟨_, rfl⟩
  obtain ⟨k2, hk2⟩ : ∃ k2, k1.paging_free_4gb (k1.tasks.task res.1).page_directory = k2 := ⟨_, rfl⟩
  obtain ⟨res', hres'⟩ : ∃ res',
    k2.paging_copy_4gb (k2.tasks.task (k2.process parent).task).page_directory = res' := ⟨_, rfl⟩
  rw [process_fork_task_eq k k1 k2 parent child slot res res' hres hne0 hk1 hk2 hres'] at hoom ⊢
  rw [process_fork_finish_oom, ← hres'] at hoom
  have hfreed := newTask_dir_freed hk child ht hk1 hk2
  have hs02 := since_trans ht.since hfreed.since
  have hk02 := since_heapOk hs02 hk
  have hpp : k2.process parent = k.process parent := by
    rw [hfreed.process]
    exact if_neg hne
  have htp := hfreed.other _ (ht.fresh _ htask)
  -- The tables of the parent are copied.
  rw [hpp, htp] at hres' hoom
  obtain ⟨-, hsame3, cdir, ctable, hcdir⟩ := paging_copy_4gb_spec hk02 (pageDir_since hdir hs02) hoom
  rw [hres'] at hsame3 hcdir
  have hchunk := usedAt_ne_zero (since_heapOk hcdir.since hk02) _ hcdir.pageDir.chunk_used
  have hcnew := newDir_earlier hs02 hcdir
  have hcbytes : NewDir k res'.2 res'.1 cdir ctable 7 fun i o => k.mem (table i + o) :=
    { hcnew with bytes := fun i hi o ho =>
        (hcnew.bytes i hi o ho).trans (hs02.mem _ (hdir.table_used i hi) o ho) }
  unfold process_fork_finish
  rw [if_neg hchunk]
  refine ⟨hk0, _, res.1, res'.1, cdir, ctable, rfl, newDir_since hcbytes (since_same rfl rfl),
    hsame3.process.trans hfreed.process, fun i => ?_, ?_, ?_, ?_⟩
  · dsimp only
    rw [hsame3.processes, hfreed.processes]
  · unfold TaskList.set
    dsimp only
    rw [if_neg (ht.fresh _ htask), if_neg (ht.fresh _ htask), hsame3.tasks, htp]
  · unfold TaskList.set
    dsimp only
    rw [if_pos rfl, if_pos rfl]
  · unfold TaskList.set
    dsimp only
    rw [if_pos rfl]

/-! ## The memory of the child -/

/-- What the later parts of `process_fork` do, from the state `k` in which the child has a record. The page
tables of the child get the bytes of the page tables of the parent. -/
structure Forked (k k' : Kernel) (parent child slot cdir : Nat) (table ctable : Nat → Nat) : Prop where
  since : k.Since k'
  other : ∀ x, x ≠ child → k'.process x = k.process x
  processes : ∀ i, k'.processes i = if i = slot then child else k.processes i
  parent_directory : (k'.tasks.task (k.process parent).task).page_directory =
    (k.tasks.task (k.process parent).task).page_directory
  child_dir : PageDir k' (k'.tasks.task (k'.process child).task).page_directory cdir ctable 7
  bytes : ∀ i < 1024, ∀ o < 4096, k'.mem (ctable i + o) = k.mem (table i + o)
  eax : (k'.tasks.task (k'.process child).task).registers.eax = 0

/-- `k1` comes from `k` by an allocation for the child. -/
structure ForkStep (k k1 : Kernel) (child : Nat) : Prop where
  since : k.Since k1
  other : ∀ x, x ≠ child → k1.process x = k.process x
  tasks : k1.tasks = k.tasks
  processes : k1.processes = k.processes

theorem forkStep_parent {k1 : Kernel} {parent child f : Nat} (h : ForkStep k k1 child) (hne : parent ≠ child)
    (hdir : PageDir k (k.tasks.task (k.process parent).task).page_directory dir table f)
    (htask : k.UsedAt (k.process parent).task) :
    PageDir k1 (k1.tasks.task (k1.process parent).task).page_directory dir table f ∧
      k1.UsedAt (k1.process parent).task := by
  rw [h.other parent hne, h.tasks]
  exact ⟨pageDir_since hdir h.since, since_usedAt h.since _ htask⟩

theorem forked_earlier (k1 : Kernel) (parent child slot cdir : Nat) (ctable : Nat → Nat) (hs : ForkStep k k1 child)
    (hne : parent ≠ child) (htable : ∀ i < 1024, k.UsedAt (table i))
    (h : Forked k1 k' parent child slot cdir table ctable) : Forked k k' parent child slot cdir table ctable := by
  refine ⟨since_trans hs.since h.since, fun x hx => (h.other x hx).trans (hs.other x hx), fun i => ?_, ?_,
    h.child_dir, fun i hi o ho => (h.bytes i hi o ho).trans (hs.since.mem _ (htable i hi) o ho), h.eax⟩
  · rw [h.processes i, hs.processes]
  · rw [← hs.other parent hne, h.parent_directory, hs.tasks]

theorem process_fork_task_forked (hk : k.HeapOk) (parent child slot : Nat)
    (hdir : PageDir k (k.tasks.task (k.process parent).task).page_directory dir table 7)
    (htask : k.UsedAt (k.process parent).task) (hne : parent ≠ child)
    (hoom : (k.process_fork_task parent child slot).2.2.oom = false) :
    ∃ k' task cdir ctable, k.process_fork_task parent child slot = (0, child, k') ∧
      k'.process child = { k.process child with task := task } ∧
      Forked k k' parent child slot cdir table ctable := by
  obtain ⟨-, k', task, chunk, cdir, ctable, heq, hf⟩ := process_fork_task_spec hk parent child slot hdir
    htask hne hoom
  have hchild : k'.process child = { k.process child with task := task } := by
    rw [hf.process]
    exact if_pos rfl
  refine ⟨k', task, cdir, ctable, heq, hchild, hf.newDir.since, fun x hx => ?_, hf.processes,
    hf.parent_directory, ?_, hf.newDir.bytes, ?_⟩
  · rw [hf.process]
    exact if_neg hx
  · rw [hchild, hf.child_directory]
    exact hf.newDir.pageDir
  · rw [hchild]
    exact hf.eax

theorem since_memcpy (k1 : Kernel) (size r src : Nat) (hsize : size ≤ 2 ^ 32 - 4096)
    (h : Allocated k size k' r) (hheap : k1.heap = k'.heap)
    (hmem : k1.mem = memcpy k'.mem (k.kzalloc size).1 src size) : k.Since k1 :=
  since_trans (since_fill size r hsize h _ fun _ hx => memcpy_of_not _ _ _ _ hx) (since_same hheap hmem)

/-- The record of the child is `p` now. Besides, memory may have changed. -/
structure ChildSet (k k1 : Kernel) (child : Nat) (p : Process) : Prop where
  heap : k1.heap = k.heap
  oom : k1.oom = k.oom
  tasks : k1.tasks = k.tasks
  process : k1.process = (k.setProcess child p).process
  processes : k1.processes = k.processes

theorem childSet_child {k1 : Kernel} {child : Nat} {p : Process} (h : ChildSet k k1 child p) :
    k1.process child = p := by
  rw [h.process]
  exact if_pos rfl

theorem forkStep_allocated {k1 : Kernel} {child : Nat} {p : Process} (size r src : Nat) (hsize : size ≤ 2 ^ 32 - 4096)
    (h : Allocated k size k' r) (hset : ChildSet k' k1 child p)
    (hmem : k1.mem = memcpy k'.mem (k.kzalloc size).1 src size) : ForkStep k k1 child := by
  refine ⟨since_memcpy k1 size r src hsize h hset.heap hmem, ?_, hset.tasks.trans h.tasks,
    hset.processes.trans h.processes⟩
  intro x hx
  rw [hset.process, ← h.process]
  exact if_neg hx

theorem setProcess_twice (k : Kernel) (child : Nat) (p q : Process) :
    ((k.setProcess child p).setProcess child q).process = (k.setProcess child q).process := by
  funext x
  unfold setProcess
  dsimp only
  split
  · rfl
  · rfl

theorem process_fork_stack_cases (k : Kernel) (parent child slot n : Nat) (hn : PEACHOS_USER_PROGRAM_STACK_SIZE = n)
    (res : Nat × Kernel) (hres : k.kzalloc n = res) :
    (res.1 = 0 ∧ ∃ k1, k.process_fork_stack parent child slot = (-ENOMEM, 0, k1) ∧
      ChildSet res.2 k1 child { res.2.process child with stack := res.1 }) ∨
    (res.1 ≠ 0 ∧ ∃ k1 src filename,
      k.process_fork_stack parent child slot = k1.process_fork_task parent child slot ∧
      k1.mem = memcpy res.2.mem res.1 src n ∧
      ChildSet res.2 k1 child { res.2.process child with filename := filename, stack := res.1, id := u16 slot }) := by
  unfold process_fork_stack
  rw [hn, hres]
  dsimp only
  have hfirst : (res.2.setProcess child { res.2.process child with stack := res.1 }).process child =
      { res.2.process child with stack := res.1 } := if_pos rfl
  by_cases hnull : res.1 = 0
  · rw [if_pos hnull]
    exact Or.inl ⟨hnull, _, rfl, rfl, rfl, rfl, rfl, rfl⟩
  · rw [if_neg hnull, hfirst]
    exact Or.inr ⟨hnull, _, _, _, rfl, rfl, rfl, rfl, rfl, setProcess_twice _ _ _ _, rfl⟩

theorem process_fork_memory_cases (k : Kernel) (parent child slot : Nat) (res : Nat × Kernel)
    (hres : k.kzalloc (k.process parent).size = res) :
    (res.1 = 0 ∧ ∃ k1, k.process_fork_memory parent child slot = (-ENOMEM, 0, k1) ∧
      ChildSet res.2 k1 child { res.2.process child with ptr := res.1 }) ∨
    (res.1 ≠ 0 ∧ ∃ k1 src, k.process_fork_memory parent child slot = k1.process_fork_stack parent child slot ∧
      k1.mem = memcpy res.2.mem res.1 src (k.process parent).size ∧
      ChildSet res.2 k1 child { res.2.process child with ptr := res.1, size := (k.process parent).size }) := by
  unfold process_fork_memory
  dsimp only
  rw [hres]
  have hfirst : (res.2.setProcess child { res.2.process child with ptr := res.1 }).process child =
      { res.2.process child with ptr := res.1 } := if_pos rfl
  by_cases hnull : res.1 = 0
  · rw [if_pos hnull]
    exact Or.inl ⟨hnull, _, rfl, rfl, rfl, rfl, rfl, rfl⟩
  · rw [if_neg hnull]
    refine Or.inr ⟨hnull, _, _, rfl, rfl, rfl, rfl, rfl, ?_, rfl⟩
    rw [hfirst]
    exact setProcess_twice _ _ _ _

theorem process_fork_stack_spec (hk : k.HeapOk) (parent child slot out : Nat)
    (hdir : PageDir k (k.tasks.task (k.process parent).task).page_directory dir table 7)
    (htask : k.UsedAt (k.process parent).task) (hne : parent ≠ child)
    (hfork : k.process_fork_stack parent child slot = (0, out, k')) (hoom : k'.oom = false) :
    out = child ∧ ∃ cdir ctable, (k'.process child).ptr = (k.process child).ptr ∧
      (k'.process child).size = (k.process child).size ∧ (k'.process child).id = u16 slot ∧
      Forked k k' parent child slot cdir table ctable := by
  obtain ⟨n, hn, hn1, hn2⟩ : ∃ n, PEACHOS_USER_PROGRAM_STACK_SIZE = n ∧ 1 ≤ n ∧ n ≤ 2 ^ 32 - 4096 :=
    ⟨_, rfl, by decide, by decide⟩
  obtain ⟨res, hres⟩ : ∃ res, k.kzalloc n = res := ⟨_, rfl⟩
  rcases process_fork_stack_cases k parent child slot n hn res hres with
    ⟨-, k1, heq, -⟩ | ⟨hnull, k1, src, filename, heq, hmem, hset⟩
  · rw [heq] at hfork
    exact absurd (Prod.mk.inj hfork).1 (by decide)
  rw [heq] at hfork
  obtain ⟨r, hall⟩ := kzalloc_spec hk n hn1 hn2 (by rw [hres]; exact hnull)
  have hprocess := hall.process
  have hstep : ForkStep k k1 child := forkStep_allocated n r src hn2 (by rw [hres] at hall; exact hall) hset
    (by rw [hres]; exact hmem)
  rw [hres] at hprocess
  obtain ⟨hdir1, htask1⟩ := forkStep_parent hstep hne hdir htask
  obtain ⟨k2, task, cdir, ctable, heq', hc, hf⟩ := process_fork_task_forked (since_heapOk hstep.since hk) parent child
    slot hdir1 htask1 hne (by rw [hfork]; exact hoom)
  rw [hfork] at heq'
  obtain ⟨-, rfl, rfl⟩ : (0 : Int) = 0 ∧ out = child ∧ k' = k2 := by
    simpa only [Prod.mk.injEq] using heq'
  rw [hc, childSet_child hset, hprocess]
  exact ⟨rfl, cdir, ctable, rfl, rfl, rfl, forked_earlier k1 parent out slot cdir ctable hstep hne hdir.table_used hf⟩

theorem process_fork_memory_spec (hk : k.HeapOk) (parent child slot out : Nat)
    (hdir : PageDir k (k.tasks.task (k.process parent).task).page_directory dir table 7)
    (htask : k.UsedAt (k.process parent).task) (hne : parent ≠ child)
    (hpos : 0 < (k.process parent).size) (hsize : (k.process parent).size ≤ 2 ^ 32 - 4096)
    (hfork : k.process_fork_memory parent child slot = (0, out, k')) (hoom : k'.oom = false) :
    out = child ∧ ∃ cdir ctable, (∀ b, k.UsedAt b → b ≠ (k'.process child).ptr) ∧
      (k'.process child).size = (k.process parent).size ∧ (k'.process child).id = u16 slot ∧
      Forked k k' parent child slot cdir table ctable := by
  obtain ⟨res, hres⟩ : ∃ res, k.kzalloc (k.process parent).size = res := ⟨_, rfl⟩
  rcases process_fork_memory_cases k parent child slot res hres with
    ⟨-, k1, heq, -⟩ | ⟨hnull, k1, src, heq, hmem, hset⟩
  · rw [heq] at hfork
    exact absurd (Prod.mk.inj hfork).1 (by decide)
  rw [heq] at hfork
  obtain ⟨r, hall⟩ := kzalloc_spec hk _ hpos hsize (by rw [hres]; exact hnull)
  have hfresh := allocated_ne _ r hpos hsize hall
  have hstep : ForkStep k k1 child := forkStep_allocated _ r src hsize (by rw [hres] at hall; exact hall) hset
    (by rw [hres]; exact hmem)
  rw [hres] at hfresh
  obtain ⟨hdir1, htask1⟩ := forkStep_parent hstep hne hdir htask
  obtain ⟨rfl, cdir, ctable, hptr, hsz, hid, hf⟩ := process_fork_stack_spec (since_heapOk hstep.since hk) parent child
    slot out hdir1 htask1 hne hfork hoom
  rw [childSet_child hset] at hptr hsz
  refine ⟨rfl, cdir, ctable, fun b hb => ?_, hsz, hid, forked_earlier k1 parent out slot cdir ctable hstep hne
    hdir.table_used hf⟩
  rw [hptr]
  exact hfresh b hb

/-! ## `process_fork` -/

theorem forkStep_record {k1 : Kernel} {size r : Nat} (child : Nat) (h : Allocated k size k' r)
    (h1 : k'.setProcess child .zero = k1) : ForkStep k k1 child := by
  rw [← h1]
  refine ⟨since_trans h.since (since_same rfl rfl), ?_, h.tasks, h.processes⟩
  intro x hx
  rw [← h.process]
  exact if_neg hx

theorem process_fork_spec (parent child : Nat) (h : Mapped k parent dir table)
    (hfork : k.process_fork parent = (0, child, k')) (hoom : k'.oom = false) :
    parent ≠ child ∧ 0 ≤ k.process_get_free_slot ∧ ∃ cdir ctable,
      (k.process parent).ptr ≠ (k'.process child).ptr ∧
      (k'.process child).size = (k.process parent).size ∧
      (k'.process child).id = u16 k.process_get_free_slot ∧
      Forked k k' parent child k.process_get_free_slot.toNat cdir table ctable := by
  obtain ⟨res, hres⟩ : ∃ res, k.kzalloc sizeof_process = res := ⟨_, rfl⟩
  unfold process_fork at hfork
  rw [hres] at hfork
  dsimp only at hfork
  split at hfork
  · exact absurd (Prod.mk.inj hfork).1 (by decide)
  rename_i hslot
  split at hfork
  · exact absurd (Prod.mk.inj hfork).1 (by decide)
  rename_i hnull
  have hk := h.heap
  obtain ⟨r, hall⟩ := kzalloc_spec hk sizeof_process (by decide) (by decide) (by rw [hres]; exact hnull)
  have hfresh := allocated_ne _ r (by decide) (by decide) hall
  rw [hres] at hall hfresh
  have hne : parent ≠ res.1 := hfresh _ h.process_used
  obtain ⟨k1, hk1⟩ : ∃ k1, res.2.setProcess res.1 .zero = k1 := ⟨_, rfl⟩
  have hstep := forkStep_record res.1 hall hk1
  have hother := hstep.other parent hne
  obtain ⟨hdir1, htask1⟩ := forkStep_parent hstep hne h.pageDir h.task_used
  rw [hk1] at hfork
  have hpos := h.size_pos
  have hfits := h.fits
  have hptr0 : 4096 ≤ (k.process parent).ptr := by
    have hz := usedAt_ne_zero hk _ h.ptr_used
    have ha := (usedAt_aligned hk _ h.ptr_used).1
    omega
  obtain ⟨rfl, cdir, ctable, hptr, hsize, hid, hf⟩ := process_fork_memory_spec (since_heapOk hstep.since hk) parent
    res.1 k.process_get_free_slot.toNat child hdir1 htask1 hne (by rw [hother]; exact hpos) (by rw [hother]; omega)
    hfork hoom
  refine ⟨hne, by omega, cdir, ctable, hptr _ (since_usedAt hstep.since _ h.ptr_used), ?_, ?_,
    forked_earlier k1 parent _ _ cdir ctable hstep hne h.pageDir.table_used hf⟩
  · rw [hsize, hother]
  · rw [hid, Int.toNat_of_nonneg (by omega)]

theorem forked_get (hk : k.HeapOk) (parent child slot cdir chunk : Nat) (ctable : Nat → Nat)
    (hdir : PageDir k chunk dir table 7) (h : Forked k k' parent child slot cdir table ctable) (v : Nat)
    (hv : v % 4096 = 0) (hlt : v < 2 ^ 32) :
    paging_get k'.mem dir v = paging_get k.mem dir v ∧
      paging_get k'.mem cdir v = paging_get k.mem dir v := by
  refine ⟨paging_get_since hk hdir h.since v hv hlt, ?_⟩
  rw [paging_get_eq hk hdir v hv hlt, paging_get_eq (since_heapOk h.since hk) h.child_dir v hv hlt]
  refine read32_congr _ _ fun i hi => ?_
  rw [Nat.add_assoc, Nat.add_assoc]
  exact h.bytes _ (by omega) _ (by omega)

end PeachOS.Memory
