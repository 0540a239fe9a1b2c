import PeachOS.Process.FreeBlocks
import PeachOS.Process.Sharing
import PeachOS.Lib.Search
import Mathlib.Order.Interval.Finset.Nat

/-!
# Forking and ending the child

`process_fork` takes the record, the program, the stack, the task and its directory, and `process_free` gives back
exactly these. The first directory of the task is given back by `process_fork` itself, where the tables are found in the
entries of the directory.
-/

open PeachOS.Lib PeachOS.Blocks PeachOS.Kernel

namespace PeachOS.Memory

variable {k k' : Kernel} {chunk dir f : Nat} {table : Nat → Nat} {base : HeapTable} {runs : List (Nat × Nat)}

/-! ## The blocks of a directory -/

/-- The block at an address. -/
def blockOf (k : Kernel) (a : Nat) : Nat := (a - k.heap.saddr) / 4096

theorem blockOf_blockAddr (k : Kernel) (i : Nat) : blockOf k (k.blockAddr i) = i := by
  unfold blockOf blockAddr
  omega

theorem blockOf_same (h : k'.heap.saddr = k.heap.saddr) : blockOf k' = blockOf k := by
  unfold blockOf
  rw [h]

theorem blockAddr_same (h : k'.heap.saddr = k.heap.saddr) : k'.blockAddr = k.blockAddr := by
  unfold blockAddr
  rw [h]

/-- The runs of pages that have been allocated one by one. -/
def pageRuns (k : Kernel) (pages : List Nat) : List (Nat × Nat) := pages.map fun a => (blockOf k a, 1)

/-- The pages of a directory, in the order in which they are freed. -/
def dirPages (chunk dir : Nat) (table : Nat → Nat) : List Nat := (List.range' 0 1024).map table ++ [dir, chunk]

theorem dirPages_nodup (h : PageDir k chunk dir table f) : (dirPages chunk dir table).Nodup := by
  unfold dirPages
  refine List.nodup_append.mpr ⟨?_, ?_, ?_⟩
  · apply List.Nodup.map_on
    · intro i hi j hj heq
      simp only [List.mem_range'_1] at hi hj
      exact h.table_inj i (by omega) j (by omega) heq
    · exact List.nodup_range'
  · simpa using h.chunk_ne.1
  · intro a ha b hb
    obtain ⟨i, hi, rfl⟩ := List.mem_map.mp ha
    simp only [List.mem_range'_1] at hi
    simp only [List.mem_cons, List.not_mem_nil, or_false] at hb
    rcases hb with rfl | rfl
    · exact h.dir_ne i (by omega)
    · exact h.chunk_ne.2 i (by omega)

/-- The page at `a` was free and is not any more. -/
def Fresh (k k' : Kernel) (a : Nat) : Prop :=
  ∃ i, a = k.blockAddr i ∧ i < k.heap.table.total ∧ k.heap.table.Free i ∧ ¬ k'.heap.table.Free i

theorem fresh_of_page (hs : k.Since k') (a : Nat) (h : Page k k' a) : Fresh k k' a := by
  obtain ⟨⟨i, rfl, hi, hfree, -⟩, j, heq, hj⟩ := h
  refine ⟨i, since_addr hs i, hi, hfree, ?_⟩
  rw [blockAddr_inj k' i j heq]
  exact hj.2

theorem fresh_dirPages {content : Nat → Nat → UInt8} (h : NewDir k k' chunk dir table f content) (a : Nat)
    (ha : a ∈ dirPages chunk dir table) : Fresh k k' a := by
  apply fresh_of_page h.since
  unfold dirPages at ha
  simp only [List.mem_append, List.mem_map, List.mem_cons, List.not_mem_nil, or_false] at ha
  rcases ha with ⟨i, hi, rfl⟩ | rfl | rfl
  · simp only [List.mem_range'_1] at hi
    exact h.table_page i (by omega)
  · exact h.dir_page
  · exact h.chunk_page

theorem takenOver_pages {n : Nat} (hk : k.HeapOk) (hover : TakenOver base k.heap.table runs) (h : OneBlocks n k k')
    (hn : n ≤ k.freeBlocks) (pages : List Nat) (hnodup : pages.Nodup) (hlen : pages.length = n)
    (hfresh : ∀ a ∈ pages, Fresh k k' a) : TakenOver base k'.heap.table (pageRuns k pages ++ runs) := by
  obtain ⟨new, hnew, htaken⟩ := oneBlocks_takes hk h hn hover
  have hblocks := takenOver_blocks hover new (pages.map (blockOf k)) htaken ?_ (by simp [hlen, hnew]) ?_
  · unfold pageRuns
    rwa [List.map_map] at hblocks
  · refine List.Nodup.map_on ?_ hnodup
    intro a ha b hb heq
    obtain ⟨i, rfl, -⟩ := hfresh a ha
    obtain ⟨j, rfl, -⟩ := hfresh b hb
    rw [blockOf_blockAddr, blockOf_blockAddr] at heq
    rw [heq]
  · intro i hi
    obtain ⟨a, ha, rfl⟩ := List.mem_map.mp hi
    obtain ⟨j, rfl, hlt, hfree, hused⟩ := hfresh a ha
    rw [blockOf_blockAddr]
    exact ⟨hover.total ▸ hlt, hfree, hused⟩

/-! ## Giving a directory back -/

/-- The page at `a` starts a block. -/
def OnBlock (k : Kernel) (a : Nat) : Prop := ∃ i, a = k.blockAddr i

theorem onBlock_of_usedAt (a : Nat) (h : k.UsedAt a) : OnBlock k a := by
  obtain ⟨i, hi, -⟩ := h
  exact ⟨i, hi⟩

theorem kfree_page (hk : k.HeapOk) (a m : Nat) (ha : OnBlock k a)
    (h : TakenOver base k.heap.table ((blockOf k a, m) :: runs)) : TakenOver base (k.kfree a).heap.table runs := by
  obtain ⟨i, rfl⟩ := ha
  rw [blockOf_blockAddr] at h
  exact kfree_takenOver hk i m h

theorem paging_free_loop_takenOver (hk : k.HeapOk) (hdir : PageDir k chunk dir table f) (n i : Nat) (hn : i + n ≤ 1024)
    (t : HeapTable) (ht : t.total = k.heap.table.total)
    (h : TakenOver base t (pageRuns k ((List.range' i n).map table) ++ runs)) :
    TakenOver base (paging_free_loop chunk n i (withTable k t)).heap.table runs := by
  induction n generalizing i t with
  | zero => exact h
  | succ n ih =>
    have hmem : (withTable k t).mem = k.mem := rfl
    have htable : table_of (read32 k.mem (read32 k.mem chunk + 4 * i)) = table i := by
      rw [hdir.chunk_eq]
      exact pageDir_table hk hdir i (by omega)
    have hon := onBlock_of_usedAt _ (hdir.table_used i (by omega))
    have hfree := kfree_page (heapOk_table hk t ht) (table i) 1 hon h
    obtain ⟨t', ht', heq⟩ := kfree_table (withTable k t) (table i)
    rw [paging_free_loop, hmem, htable, heq]
    rw [heq] at hfree
    exact ih (i + 1) (by omega) t' (ht'.trans ht) hfree

theorem paging_free_4gb_takenOver (hk : k.HeapOk) (hdir : PageDir k chunk dir table f)
    (h : TakenOver base k.heap.table (pageRuns k (dirPages chunk dir table) ++ runs)) :
    TakenOver base (k.paging_free_4gb chunk).heap.table runs := by
  have hsplit : pageRuns k (dirPages chunk dir table) ++ runs = pageRuns k ((List.range' 0 1024).map table) ++
      (blockOf k dir, 1) :: (blockOf k chunk, 1) :: runs := by
    unfold pageRuns dirPages
    rw [List.map_append, List.append_assoc]
    rfl
  rw [hsplit] at h
  have hself : withTable k k.heap.table = k := rfl
  have hloop := paging_free_loop_takenOver hk hdir 1024 0 (by omega) k.heap.table rfl h
  rw [hself] at hloop
  obtain ⟨t, ht, heq⟩ := paging_free_loop_table chunk 1024 0 k
  have hmem : (withTable k t).mem = k.mem := rfl
  rw [paging_free_4gb_eq k _ chunk heq, hmem, hdir.chunk_eq]
  rw [heq] at hloop
  have hdon := onBlock_of_usedAt _ hdir.dir_used
  have hcon := onBlock_of_usedAt _ hdir.chunk_used
  have hfree := kfree_page (heapOk_table hk t ht) dir 1 hdon hloop
  obtain ⟨t', ht', heq'⟩ := kfree_table (withTable k t) dir
  rw [heq'] at hfree ⊢
  exact kfree_page (heapOk_table hk t' (ht'.trans ht)) chunk 1 hcon hfree

/-! ## A task and its directory -/

/-- Over `base`, the task with its directory has been allocated last. -/
def OwnsTask (base : HeapTable) (k : Kernel) (task : Nat) (runs : List (Nat × Nat)) : Prop :=
  OnBlock k task ∧ ∃ dir table f, PageDir k (k.tasks.task task).page_directory dir table f ∧
    TakenOver base k.heap.table
      (pageRuns k (dirPages (k.tasks.task task).page_directory dir table) ++ (blockOf k task, 1) :: runs)

theorem task_free_takenOver (hk : k.HeapOk) (task : Nat) (h : OwnsTask base k task runs) :
    TakenOver base (k.task_free task).heap.table runs := by
  obtain ⟨hon, dir, table, f, hdir, hover⟩ := h
  have hfree := paging_free_4gb_takenOver hk hdir hover
  obtain ⟨t, ht, heq⟩ := paging_free_4gb_table k (k.tasks.task task).page_directory
  unfold task_free
  rw [heq] at hfree ⊢
  have hk' : HeapOk { withTable k t with tasks := k.tasks.task_list_remove task } :=
    heapOk_same (heapOk_table hk t ht) rfl
  exact kfree_page hk' task 1 hon hfree

theorem fresh_task {k1 : Kernel} {task : Nat} (h : NewTask k k' task k1 chunk dir table) : Fresh k k' task := by
  obtain ⟨i, heq, hi⟩ := h.used
  rw [since_addr h.since] at heq
  have hlt : i < k.heap.table.total := h.since.total ▸ hi.1
  refine ⟨i, heq, hlt, ?_, (since_used h.newDir.since i hi).2⟩
  by_contra hused
  exact h.fresh task ⟨i, heq, hlt, hused⟩ rfl

theorem task_new_given_back (hk : k.HeapOk) (process : Nat) (hcount : 1027 ≤ k.freeBlocks) (k1 k2 : Kernel)
    (h : NewTask k (k.task_new process).2 (k.task_new process).1 k1 chunk dir table)
    (hheap : k2.heap = (k.task_new process).2.heap) (hmem : k2.mem = (k.task_new process).2.mem) :
    (∀ base runs, TakenOver base k.heap.table runs → TakenOver base (k2.paging_free_4gb chunk).heap.table
      ((blockOf k (k.task_new process).1, 1) :: runs)) ∧
      (k2.paging_free_4gb chunk).freeBlocks + 1 = k.freeBlocks := by
  obtain ⟨hblocks, -, -⟩ := task_new_enough hk process hcount
  have hs := since_trans h.since h.newDir.since
  have hk2 : k2.HeapOk := heapOk_same (since_heapOk hs hk) hheap
  have hdir : PageDir k2 chunk dir table 7 := pageDir_since h.newDir.pageDir (since_same hheap hmem)
  have hruns : pageRuns k2 = pageRuns k := by
    unfold pageRuns
    rw [blockOf_same (show k2.heap.saddr = k.heap.saddr by rw [hheap, hs.saddr])]
  have htask := fresh_task h
  have hgive : ∀ base runs, TakenOver base k.heap.table runs → TakenOver base (k2.paging_free_4gb chunk).heap.table
      ((blockOf k (k.task_new process).1, 1) :: runs) := by
    intro base runs hover
    have hpages :=
      takenOver_pages hk hover hblocks hcount (dirPages chunk dir table ++ [(k.task_new process).1]) ?_ ?_ ?_
    · apply paging_free_4gb_takenOver hk2 hdir
      rw [hruns, hheap]
      unfold pageRuns at hpages ⊢
      simpa using hpages
    · refine List.nodup_append.mpr ⟨dirPages_nodup hdir, by simp, ?_⟩
      intro a ha b hb
      rw [List.mem_singleton.mp hb]
      obtain ⟨i, hi, -, hfree, -⟩ := fresh_dirPages h.newDir a ha
      obtain ⟨j, hj, hused⟩ := h.used
      rw [hi, hj]
      intro heq
      rw [blockAddr_inj k1 i j heq] at hfree
      exact hused.2 hfree
    · simp [dirPages]
    · intro a ha
      rcases List.mem_append.mp ha with ha | ha
      · exact fresh_dirPages (newDir_earlier h.since h.newDir) a ha
      · rw [List.mem_singleton.mp ha]
        exact htask
  refine ⟨hgive, ?_⟩
  obtain ⟨i, haddr, hlt, hfree, -⟩ := htask
  have hover := hgive k.heap.table [] (takenOver_refl _)
  apply freeBlocks_erase i hlt hfree hover.total
  intro j hj
  rw [takenOver_free_iff hover j hj, haddr, blockOf_blockAddr]
  simp only [List.mem_singleton, forall_eq, covers_one]

/-! ## `process_fork` -/

/-- The child as the later parts of `process_fork` leave it. -/
structure ForkedChild (base : HeapTable) (k k' : Kernel) (child slot : Nat) (runs : List (Nat × Nat)) : Prop where
  heap : k'.HeapOk
  saddr : k'.heap.saddr = k.heap.saddr
  processes : ∀ i, k'.processes i = if i = slot then child else k.processes i
  owns : OwnsTask base k' (k'.process child).task runs

theorem process_fork_task_owns (hk : k.HeapOk) (parent child slot : Nat)
    (hdir : PageDir k (k.tasks.task (k.process parent).task).page_directory dir table f)
    (htask : k.UsedAt (k.process parent).task) (hne : parent ≠ child) (hcount : 1027 ≤ k.freeBlocks)
    (hover : TakenOver base k.heap.table runs) :
    ∃ k' task, k.process_fork_task parent child slot = (0, child, k') ∧
      k'.process child = { k.process child with task := task } ∧ ForkedChild base k k' child slot runs := by
  obtain ⟨res, hres⟩ : ∃ res, k.task_new child = res := ⟨_, rfl⟩
  obtain ⟨-, hne0, kt, chunk0, dir0, table0, ht⟩ := task_new_enough hk child hcount
  have hback := task_new_given_back hk child hcount kt
    (res.2.setProcess child { res.2.process child with task := res.1 }) ht (by rw [hres]; rfl) (by rw [hres]; rfl)
  rw [hres] at hne0 ht hback
  obtain ⟨k1, hk1⟩ : ∃ k1, res.2.setProcess child { res.2.process child with task := res.1 } = k1 := ⟨_, rfl⟩
  obtain ⟨k2, hk2⟩ : ∃ k2, k1.paging_free_4gb (k1.tasks.task res.1).page_directory = k2 := ⟨_, rfl⟩
  obtain ⟨res', hres'⟩ : ∃ res',
    k2.paging_copy_4gb (k2.tasks.task (k2.process parent).task).page_directory = res' := ⟨_, rfl⟩
  rw [process_fork_task_eq k k1 k2 parent child slot res res' hres hne0 hk1 hk2 hres']
  have hfreed := newTask_dir_freed hk child ht hk1 hk2
  have hown : (k1.tasks.task res.1).page_directory = chunk0 := by
    rw [← ht.own, ← hk1]
    rfl
  rw [hk1, ← hown, hk2] at hback
  obtain ⟨hgive, hcount2⟩ := hback
  have hs02 := since_trans ht.since hfreed.since
  have hk02 := since_heapOk hs02 hk
  have hpp : k2.process parent = k.process parent := by
    rw [hfreed.process]
    exact if_neg hne
  have htp := hfreed.other _ (ht.fresh _ htask)
  -- The tables of the parent are copied.
  rw [hpp, htp] at hres'
  obtain ⟨hblocks, hsame3, cdir, ctable, hcdir⟩ := paging_copy_4gb_enough hk02 (pageDir_since hdir hs02) (by omega)
  rw [hres'] at hblocks hsame3 hcdir
  have hpages := takenOver_pages hk02 (hgive base runs hover) hblocks (by omega) (dirPages res'.1 cdir ctable)
    (dirPages_nodup hcdir.pageDir) (by simp [dirPages]) (fresh_dirPages hcdir)
  have hchunk := usedAt_ne_zero (since_heapOk hcdir.since hk02) _ hcdir.pageDir.chunk_used
  have hs03 := since_trans hs02 hcdir.since
  have hk03 := since_heapOk hs03 hk
  have hon : OnBlock res'.2 res.1 :=
    onBlock_of_usedAt _ (since_usedAt (since_trans hfreed.since hcdir.since) _ ht.used)
  have hchild : res'.2.process child = { k.process child with task := res.1 } := by
    rw [hsame3.process, hfreed.process]
    exact if_pos rfl
  unfold process_fork_finish
  rw [if_neg hchunk]
  refine ⟨_, res.1, rfl, hchild, heapOk_same hk03 rfl, hs03.saddr, fun i => ?_, ?_⟩
  · dsimp only
    rw [hsame3.processes, hfreed.processes]
  · dsimp only
    rw [hchild]
    refine ⟨hon, cdir, ctable, f, ?_⟩
    unfold TaskList.set pageRuns
    dsimp only
    rw [if_pos rfl, if_pos rfl]
    refine ⟨pageDir_since hcdir.pageDir (since_same rfl rfl), ?_⟩
    unfold pageRuns at hpages
    rw [blockOf_same hs02.saddr, ← blockOf_same hs03.saddr] at hpages
    exact hpages

theorem forkedChild_earlier (k1 : Kernel) (child slot : Nat) (hs : ForkStep k k1 child)
    (h : ForkedChild base k1 k' child slot runs) : ForkedChild base k k' child slot runs := by
  refine ⟨h.heap, h.saddr.trans hs.since.saddr, ?_, h.owns⟩
  rw [← hs.processes]
  exact h.processes

theorem process_fork_stack_owns (hk : k.HeapOk) (parent child slot : Nat)
    (hdir : PageDir k (k.tasks.task (k.process parent).task).page_directory dir table f)
    (htask : k.UsedAt (k.process parent).task) (hne : parent ≠ child)
    (hrun : k.heap.table.HasRun (HeapState.needed PEACHOS_USER_PROGRAM_STACK_SIZE))
    (hcount : 1027 ≤ (k.kzalloc PEACHOS_USER_PROGRAM_STACK_SIZE).2.freeBlocks)
    (hover : TakenOver base k.heap.table runs) :
    ∃ k' s m, k.process_fork_stack parent child slot = (0, child, k') ∧
      (k'.process child).ptr = (k.process child).ptr ∧ (k'.process child).stack = k.blockAddr s ∧
      (k'.process child).id = u16 slot ∧ ForkedChild base k k' child slot ((s, m) :: runs) := by
  obtain ⟨n, hn, hn1⟩ : ∃ n, PEACHOS_USER_PROGRAM_STACK_SIZE = n ∧ 1 ≤ n := ⟨_, rfl, by decide⟩
  rw [hn] at hrun hcount
  obtain ⟨hnull, -, hn2, r, hall, htakes⟩ := kzalloc_takes hk n hn1 hrun
  obtain ⟨res, hres⟩ : ∃ res, k.kzalloc n = res := ⟨_, rfl⟩
  have haddr := hall.addr
  have hprocess := hall.process
  rw [hres] at hnull hall htakes hcount haddr hprocess
  rcases process_fork_stack_cases k parent child slot n hn res hres with
    ⟨h0, -⟩ | ⟨-, k1, src, filename, heq, hmem, hset⟩
  · exact absurd h0 hnull
  have hstep : ForkStep k k1 child := forkStep_allocated n r src hn2 hall hset (by rw [hres]; exact hmem)
  obtain ⟨hdir1, htask1⟩ := forkStep_parent hstep hne hdir htask
  have hover1 := htakes base runs hover
  rw [← hset.heap] at hover1
  obtain ⟨k', task, heq', hc, hf⟩ := process_fork_task_owns (since_heapOk hstep.since hk) parent child slot hdir1 htask1
    hne (by rw [freeBlocks_same hset.heap]; exact hcount) hover1
  refine ⟨k', r, _, heq.trans heq', ?_, ?_, ?_, forkedChild_earlier k1 child slot hstep hf⟩
  · rw [hc, childSet_child hset, hprocess]
  · rw [hc, childSet_child hset]
    exact haddr
  · rw [hc, childSet_child hset]

theorem process_fork_memory_owns (hk : k.HeapOk) (parent child slot : Nat)
    (hdir : PageDir k (k.tasks.task (k.process parent).task).page_directory dir table f)
    (htask : k.UsedAt (k.process parent).task) (hne : parent ≠ child) (hpos : 0 < (k.process parent).size)
    (hrun : k.heap.table.HasRun (HeapState.needed (k.process parent).size))
    (hrun1 : (k.kzalloc (k.process parent).size).2.heap.table.HasRun (HeapState.needed PEACHOS_USER_PROGRAM_STACK_SIZE))
    (hcount : 1027 ≤ ((k.kzalloc (k.process parent).size).2.kzalloc PEACHOS_USER_PROGRAM_STACK_SIZE).2.freeBlocks)
    (hover : TakenOver base k.heap.table runs) :
    ∃ k' p n s m, k.process_fork_memory parent child slot = (0, child, k') ∧
      (k'.process child).ptr = k.blockAddr p ∧ (k'.process child).stack = k.blockAddr s ∧
      (k'.process child).id = u16 slot ∧ ForkedChild base k k' child slot ((s, m) :: (p, n) :: runs) := by
  obtain ⟨hnull, -, hsize, r, hall, htakes⟩ := kzalloc_takes hk _ hpos hrun
  obtain ⟨res, hres⟩ : ∃ res, k.kzalloc (k.process parent).size = res := ⟨_, rfl⟩
  have haddr := hall.addr
  rw [hres] at hnull hall htakes hcount haddr hrun1
  rcases process_fork_memory_cases k parent child slot res hres with ⟨h0, -⟩ | ⟨-, k1, src, heq, hmem, hset⟩
  · exact absurd h0 hnull
  have hstep : ForkStep k k1 child := forkStep_allocated _ r src hsize hall hset (by rw [hres]; exact hmem)
  obtain ⟨hdir1, htask1⟩ := forkStep_parent hstep hne hdir htask
  have hover1 := htakes base runs hover
  rw [← hset.heap] at hover1 hrun1
  have hsame := freeBlocks_same (kzalloc_heap PEACHOS_USER_PROGRAM_STACK_SIZE hset.heap)
  obtain ⟨k', s, m, heq', hptr, hstack, hid, hf⟩ :=
    process_fork_stack_owns (since_heapOk hstep.since hk) parent child slot hdir1 htask1 hne hrun1
    (by rw [hsame]; exact hcount) hover1
  rw [since_addr hstep.since] at hstack
  refine ⟨k', r, _, s, m, heq.trans heq', ?_, hstack, hid, forkedChild_earlier k1 child slot hstep hf⟩
  rw [hptr, childSet_child hset]
  exact haddr

/-! ## `process_free` -/

theorem process_free_takenOver (hk : k.HeapOk) (process c l p n s m : Nat) (hc : process = k.blockAddr c)
    (hp : (k.process process).ptr = k.blockAddr p) (hs : (k.process process).stack = k.blockAddr s)
    (h : OwnsTask base k (k.process process).task ((s, m) :: (p, n) :: (c, l) :: runs)) :
    TakenOver base (k.process_free process).heap.table runs ∧
      (k.process_free process).processes = fun i => if i = (k.process process).id then 0 else k.processes i := by
  have hne : process ≠ 0 := by
    have hpos := hk.pos
    rw [hc]
    unfold blockAddr
    omega
  have hfree := takenOver_perm (task_free_takenOver hk _ h) (List.Perm.swap _ _ _)
  obtain ⟨t, ht, heq⟩ := task_free_table k (k.process process).task
  unfold process_free
  rw [if_neg hne]
  dsimp only
  rw [heq] at hfree ⊢
  have hk1 : HeapOk { withTable k t with tasks := k.tasks.task_list_remove (k.process process).task } :=
    heapOk_same (heapOk_table hk t ht) rfl
  generalize hk1eq :
    { withTable k t with tasks := k.tasks.task_list_remove (k.process process).task } = k1 at hfree hk1 ⊢
  have hpr1 : k1.process = k.process := by
    rw [← hk1eq]
    rfl
  have hps1 : k1.processes = k.processes := by
    rw [← hk1eq]
    rfl
  have ha1 : k1.blockAddr = k.blockAddr := by
    rw [← hk1eq]
    rfl
  rw [hpr1, hp, ← ha1]
  have hfree1 := kfree_takenOver hk1 p n hfree
  obtain ⟨t2, ht2, heq2⟩ := kfree_table k1 (k1.blockAddr p)
  rw [heq2] at hfree1 ⊢
  have hpr2 : (withTable k1 t2).process process = k.process process := by rw [← hpr1]; rfl
  rw [hpr2, hs, ← ha1]
  have hfree2 := kfree_takenOver (heapOk_table hk1 t2 ht2) s m hfree1
  obtain ⟨t3, ht3, heq3⟩ := kfree_table (withTable k1 t2) (k1.blockAddr s)
  have ha2 : (withTable k1 t2).blockAddr s = k1.blockAddr s := rfl
  rw [ha2, heq3] at hfree2
  rw [heq3]
  refine ⟨?_, ?_⟩
  · rw [hc, ← ha1]
    exact kfree_takenOver (heapOk_same (heapOk_table hk1 t3 (ht3.trans ht2)) rfl) c l hfree2
  · show (fun i => if i = (k1.process process).id then 0 else k1.processes i) = _
    rw [hpr1, hps1]

/-! ## Both -/

theorem free_slot_spec (h : 0 ≤ k.process_get_free_slot) :
    ∃ slot < PEACHOS_MAX_PROCESSES, k.process_get_free_slot = slot ∧ k.processes slot = 0 := by
  rcases search_spec k.process_get_free_slot_loop (-EISTKN) (fun _ => rfl) (fun _ _ => rfl) PEACHOS_MAX_PROCESSES 0 with
    ⟨j, heq, hj⟩ | ⟨heq, -⟩
  · have hlt := hj.lt
    exact ⟨j, by omega, heq, hj.holds⟩
  · unfold process_get_free_slot at h
    rw [heq] at h
    exact absurd h (by decide)

theorem process_fork_owns (hk : k.HeapOk) (parent : Nat) (hparent : k.UsedAt parent)
    (htask : k.UsedAt (k.process parent).task) (hpos : 0 < (k.process parent).size)
    (hdir : PageDir k (k.tasks.task (k.process parent).task).page_directory dir table f)
    (hslot : 0 ≤ k.process_get_free_slot) (hfit : k.ForkFits parent) (hover : TakenOver base k.heap.table runs) :
    ∃ child k' c l p n s m, k.process_fork parent = (0, child, k') ∧ child = k.blockAddr c ∧
      (k'.process child).ptr = k.blockAddr p ∧ (k'.process child).stack = k.blockAddr s ∧
      (k'.process child).id = u16 k.process_get_free_slot ∧
      ForkedChild base k k' child k.process_get_free_slot.toNat ((s, m) :: (p, n) :: (c, l) :: runs) := by
  obtain ⟨hrun, hrun1, hrun2, hcount⟩ := hfit
  obtain ⟨hnull, -, -, r, hall, htakes⟩ := kzalloc_takes hk sizeof_process (by decide) hrun
  have hne : parent ≠ (k.kzalloc sizeof_process).1 := allocated_ne _ r (by decide) (by decide) hall _ hparent
  have haddr := hall.addr
  obtain ⟨res, hres⟩ : ∃ res, k.kzalloc sizeof_process = res := ⟨_, rfl⟩
  rw [hres] at hnull hall htakes hne haddr hrun1 hrun2 hcount
  unfold process_fork
  rw [hres]
  dsimp only
  rw [if_neg (by omega), if_neg hnull]
  obtain ⟨k1, hk1⟩ : ∃ k1, res.2.setProcess res.1 .zero = k1 := ⟨_, rfl⟩
  rw [hk1]
  have hheap : k1.heap = res.2.heap := by
    rw [← hk1]
    rfl
  have hstep := forkStep_record res.1 hall hk1
  have hp := hstep.other parent hne
  obtain ⟨hdir1, htask1⟩ := forkStep_parent hstep hne hdir htask
  have hover1 := htakes base runs hover
  have hheap1 : (k1.kzalloc (k.process parent).size).2.heap = (res.2.kzalloc (k.process parent).size).2.heap :=
    kzalloc_heap _ hheap
  rw [← hheap] at hover1 hrun1
  rw [← hheap1] at hrun2
  rw [freeBlocks_same (kzalloc_heap _ hheap1).symm] at hcount
  obtain ⟨k', p, n, s, m, heq, hptr, hstack, hid, hf⟩ := process_fork_memory_owns (since_heapOk hstep.since hk) parent
    res.1 k.process_get_free_slot.toNat hdir1 htask1 hne (by rw [hp]; exact hpos) (by rw [hp]; exact hrun1)
    (by rw [hp]; exact hrun2) (by rw [hp]; exact hcount) hover1
  rw [since_addr hstep.since] at hptr hstack
  rw [Int.toNat_of_nonneg hslot] at hid
  exact ⟨res.1, k', r, _, p, n, s, m, heq, haddr, hptr, hstack, hid,
    forkedChild_earlier k1 res.1 _ hstep hf⟩

/-- A fork and the end of its child leave the heap, the outstanding allocations and the table of processes as they
were. -/
theorem fork_exit_restores (k : Kernel) (parent dir f : Nat) (table : Nat → Nat) (hk : k.HeapOk)
    (hclean : k.heap.table.Clean) (hparent : k.UsedAt parent) (htask : k.UsedAt (k.process parent).task)
    (hpos : 0 < (k.process parent).size)
    (hdir : PageDir k (k.tasks.task (k.process parent).task).page_directory dir table f)
    (hslot : 0 ≤ k.process_get_free_slot) (hfit : k.ForkFits parent) :
    ∃ child k', k.process_fork parent = (0, child, k') ∧ k.Restored (k'.process_free child) := by
  obtain ⟨child, k', c, l, p, n, s, m, heq, hc, hp, hs, hid, hf⟩ := process_fork_owns hk parent hparent htask hpos hdir
    hslot hfit (takenOver_refl k.heap.table)
  have haddr := blockAddr_same hf.saddr
  rw [← haddr] at hc hp hs
  obtain ⟨hover, hprocesses⟩ := process_free_takenOver hf.heap child c l p n s m hc hp hs hf.owns
  have hentries := takenOver_nil hover hclean
  refine ⟨child, k', heq, hover.total, hentries, fun runs => ⟨fun h => ?_, fun h => ?_⟩, ?_⟩
  · refine outstanding_same h hover.total.symm ?_
    intro i hi
    rw [hover.total] at hi
    exact (hentries i hi).symm
  · exact outstanding_same h hover.total hentries
  · -- The slot was free before.
    obtain ⟨slot, hlt, hsl, hzero⟩ := free_slot_spec hslot
    rw [hsl, Int.toNat_natCast] at hf
    have hid' : (k'.process child).id = slot := by
      rw [hid, hsl]
      unfold u16 PEACHOS_MAX_PROCESSES at *
      omega
    rw [hprocesses, hid']
    funext i
    rw [hf.processes i]
    split
    · rename_i hi
      rw [hi, hzero]
    · rfl

/-! ## The first process after boot forks -/

theorem clean_kzalloc (h : k.heap.table.Clean) (size : Nat) : (k.kzalloc size).2.heap.table.Clean := by
  have hmalloc := heap_malloc_clean h size
  unfold kzalloc kmalloc
  dsimp only
  split
  · exact hmalloc
  · exact hmalloc

theorem clean_kfree (h : k.heap.table.Clean) (ptr : Nat) : (k.kfree ptr).heap.table.Clean := heap_free_clean h ptr

theorem clean_paging_new_loop (dir flags n i : Nat) (offset : Int) (h : k.heap.table.Clean) :
    (paging_new_loop dir flags n i offset k).heap.table.Clean := by
  induction n generalizing i offset k with
  | zero => exact h
  | succ n ih =>
    rw [paging_new_loop]
    apply ih
    exact clean_kzalloc h _

theorem clean_paging_new_4gb (flags : Nat) (h : k.heap.table.Clean) :
    (k.paging_new_4gb flags).2.heap.table.Clean := by
  obtain ⟨res, hres⟩ : ∃ res, k.kzalloc (4 * PAGING_TOTAL_ENTRIES_PER_TABLE) = res := ⟨_, rfl⟩
  obtain ⟨k1, hk1⟩ : ∃ k1, paging_new_loop res.1 flags PAGING_TOTAL_ENTRIES_PER_TABLE 0 0 res.2 = k1 := ⟨_, rfl⟩
  have h1 := clean_kzalloc h (4 * PAGING_TOTAL_ENTRIES_PER_TABLE)
  rw [hres] at h1
  have h2 := clean_paging_new_loop res.1 flags PAGING_TOTAL_ENTRIES_PER_TABLE 0 0 h1
  rw [hk1] at h2
  rw [paging_new_4gb_eq k k1 flags res _ hres hk1 rfl]
  exact clean_kzalloc h2 4

theorem clean_paging_free_loop (chunk n i : Nat) (h : k.heap.table.Clean) :
    (paging_free_loop chunk n i k).heap.table.Clean := by
  induction n generalizing i k with
  | zero => exact h
  | succ n ih =>
    rw [paging_free_loop]
    apply ih
    exact clean_kfree h _

theorem clean_task_free (task : Nat) (h : k.heap.table.Clean) : (k.task_free task).heap.table.Clean := by
  obtain ⟨k1, hk1⟩ : ∃ k1, paging_free_loop (k.tasks.task task).page_directory 1024 0 k = k1 := ⟨_, rfl⟩
  have h1 := clean_paging_free_loop (k.tasks.task task).page_directory 1024 0 h
  rw [hk1] at h1
  unfold task_free
  rw [paging_free_4gb_eq k k1 _ hk1]
  exact clean_kfree (clean_kfree (clean_kfree h1 _) _) task

theorem clean_task_new (process : Nat) (h : k.heap.table.Clean) : (k.task_new process).2.heap.table.Clean := by
  obtain ⟨res, hres⟩ : ∃ res, k.kzalloc sizeof_task = res := ⟨_, rfl⟩
  obtain ⟨res', hres'⟩ : ∃ res', res.2.paging_new_4gb (PAGING_IS_PRESENT ||| PAGING_ACCESS_FROM_ALL) = res' := ⟨_, rfl⟩
  have h1 := clean_kzalloc h sizeof_task
  rw [hres] at h1
  have h2 := clean_paging_new_4gb (PAGING_IS_PRESENT ||| PAGING_ACCESS_FROM_ALL) h1
  rw [hres'] at h2
  rw [task_new_eq k process res res' hres hres']
  split
  · exact clean_task_free _ h1
  dsimp only
  split
  · exact clean_task_free _ h2
  · exact h2

theorem clean_process_load_out (res : Int) (process : Nat) (h : k.heap.table.Clean) :
    (k.process_load_out res process).heap.table.Clean := by
  unfold process_load_out
  split
  · exact clean_task_free _ h
  · exact h

theorem clean_process_load_data (file : ProgramFile) (process : Nat) (h : k.heap.table.Clean) :
    (k.process_load_data file process).2.heap.table.Clean := by
  have halloc := clean_kzalloc h file.filesize
  unfold process_load_data process_load_binary
  dsimp only
  split
  · exact h
  split
  · exact h
  split
  · exact halloc
  split
  · exact halloc
  · exact halloc

theorem clean_process_load_task (process : Nat) (slot : Int) (h : k.heap.table.Clean) :
    (k.process_load_task process slot).2.2.heap.table.Clean := by
  obtain ⟨res, hres⟩ : ∃ res, k.task_new process = res := ⟨_, rfl⟩
  have h1 := clean_task_new process h
  rw [hres] at h1
  rw [process_load_task_eq k process slot res hres]
  split
  · exact h1
  · dsimp only
    obtain ⟨mem, hmap⟩ := process_map_memory_result
      (res.2.setProcess process { res.2.process process with task := res.1 }) process
    rw [hmap, if_neg (by omega)]
    exact h1

theorem clean_process_load_for_slot (file : ProgramFile) (filename : Nat → UInt8) (slot : Int) (uninit : Nat)
    (h : k.heap.table.Clean) : (k.process_load_for_slot file filename slot uninit).2.2.heap.table.Clean := by
  obtain ⟨res, hres⟩ : ∃ res, k.kzalloc sizeof_process = res := ⟨_, rfl⟩
  obtain ⟨data, hdata⟩ : ∃ data, (res.2.setProcess res.1 .zero).process_load_data file res.1 = data := ⟨_, rfl⟩
  obtain ⟨res', hres'⟩ : ∃ res', data.2.kzalloc PEACHOS_USER_PROGRAM_STACK_SIZE = res' := ⟨_, rfl⟩
  rw [process_load_for_slot_eq k file filename slot uninit res res' data hres hdata hres']
  have h1 : (res.2.setProcess res.1 .zero).heap.table.Clean := by
    rw [← hres]
    exact clean_kzalloc h sizeof_process
  have h2 := clean_process_load_data file res.1 h1
  rw [hdata] at h2
  have h3 := clean_kzalloc h2 PEACHOS_USER_PROGRAM_STACK_SIZE
  rw [hres'] at h3
  split
  · exact clean_process_load_out _ _ h
  split
  · exact clean_process_load_out _ _ h1
  split
  · exact clean_process_load_out _ _ h2
  split
  · exact clean_process_load_out _ _ h3
  · exact clean_process_load_task _ _ h3

theorem clean_process_load (file : ProgramFile) (filename : Nat → UInt8) (uninit : Nat) (h : k.heap.table.Clean) :
    (k.process_load file filename uninit).2.2.heap.table.Clean := by
  unfold process_load
  dsimp only
  split
  · exact h
  · exact clean_process_load_for_slot file filename _ uninit h

theorem hasRun_of_room (n m : Nat) (h : Room k (n + m)) : k.heap.table.HasRun n := by
  have hle := h.le
  exact ⟨k.heap.table.total - (n + m), by omega, fun i h1 h2 => h.free i h1 (by omega)⟩

theorem freeBlocks_of_room (n : Nat) (h : Room k n) : n ≤ k.freeBlocks := by
  have hle := h.le
  have hsub : Finset.Ico (k.heap.table.total - n) k.heap.table.total ⊆
      (Finset.range k.heap.table.total).filter fun i => k.heap.table.Free i := by
    intro i hi
    rw [Finset.mem_Ico] at hi
    rw [Finset.mem_filter, Finset.mem_range]
    exact ⟨hi.2, h.free i hi.1 hi.2⟩
  have hcard := Finset.card_le_card hsub
  rw [Nat.card_Ico] at hcard
  unfold freeBlocks
  omega

theorem forkFits_of_room (parent : Nat) (hsize : (k.process parent).size = 1) (h : Room k (2 + (1 + (4 + 1027)))) :
    k.ForkFits parent := by
  have hneed : HeapState.needed PEACHOS_USER_PROGRAM_STACK_SIZE = 4 := by decide
  have hroom1 := (room_kzalloc sizeof_process (1 + (4 + 1027)) h (by decide)).2
  have hroom2 := (room_kzalloc 1 (4 + 1027) hroom1 (by decide)).2
  have hroom3 := (room_kzalloc PEACHOS_USER_PROGRAM_STACK_SIZE 1027 hroom2 (by decide)).2
  unfold ForkFits
  rw [hsize, hneed]
  exact ⟨hasRun_of_room 2 _ h, hasRun_of_room 1 _ hroom1, hasRun_of_room 4 _ hroom2, freeBlocks_of_room 1027 hroom3⟩

theorem bootKernel_clean : bootKernel.heap.table.Clean := fun _ _ _ => rfl

theorem bootLoad_clean : bootLoad.2.2.heap.table.Clean := by
  have hclean := clean_process_load tinyProgram (fun _ => 0) 0 bootKernel_clean
  unfold bootLoad
  exact hclean

theorem bootFork_restored : ∃ process k child k', bootLoad = (0, process, k) ∧
    k.process_fork process = (0, child, k') ∧ k.Restored (k'.process_free child) := by
  have hclean := bootLoad_clean
  obtain ⟨process, k, dir, table, hload, hroom, ⟨hmapped, -⟩, hsize, hslot, -⟩ := bootLoad_spec
  rw [hload] at hclean
  obtain ⟨child, k', hfork, hback⟩ := fork_exit_restores k process dir 7 table hroom.heap hclean hmapped.process_used
    hmapped.task_used hmapped.size_pos hmapped.pageDir hslot
    (forkFits_of_room process hsize (room_le _ _ hroom (by decide)))
  exact ⟨process, k, child, k', hload, hfork, hback⟩

end PeachOS.Memory
