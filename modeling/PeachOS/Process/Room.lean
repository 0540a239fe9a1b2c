import PeachOS.Process.Fork

/-!
# Enough memory

When the last blocks of the heap are free, allocations succeed and use up as many of them. So a program
can be loaded and forked.
-/

open PeachOS.Lib PeachOS.Blocks PeachOS.Kernel

namespace PeachOS.Memory

variable {k k' : Kernel} {dir : Nat} {table : Nat → Nat}

/-- The last `n` blocks are free, and no allocation has failed. -/
structure Room (k : Kernel) (n : Nat) : Prop where
  heap : k.HeapOk
  oom : k.oom = false
  le : n ≤ k.heap.table.total
  free : ∀ i, k.heap.table.total - n ≤ i → i < k.heap.table.total → k.heap.table.Free i

theorem room_le (n m : Nat) (h : Room k n) (hm : m ≤ n) : Room k m :=
  ⟨h.heap, h.oom, Nat.le_trans hm h.le, fun i h1 h2 => h.free i (by omega) h2⟩

theorem room_same (n : Nat) (h : Room k n) (hheap : k'.heap = k.heap) (hoom : k'.oom = k.oom) :
    Room k' n := by
  refine ⟨⟨?_, ?_, ?_, ?_⟩, hoom.trans h.oom, ?_, ?_⟩ <;> rw [hheap]
  · exact h.heap.aligned
  · exact h.heap.pos
  · exact h.heap.fits
  · exact h.heap.small
  · exact h.le
  · exact h.free

theorem room_kzalloc (size n : Nat) (h : Room k (heap_total_blocks size + n))
    (hpos : 1 ≤ heap_total_blocks size) : (k.kzalloc size).1 ≠ 0 ∧ Room (k.kzalloc size).2 n := by
  have hk := h.heap
  have hle := h.le
  have hrun : AllIn k.heap.table.Free (k.heap.table.total - (heap_total_blocks size + n))
      (heap_total_blocks size) := fun i h1 h2 => h.free i h1 (by omega)
  obtain ⟨r, heq, hr⟩ : ∃ r : Nat, heap_get_start_block k.heap (heap_total_blocks size) = r ∧
      r ≤ k.heap.table.total - (heap_total_blocks size + n) := by
    rcases heap_get_start_block_spec k.heap (heap_total_blocks size) with
      ⟨r, heq, -, -, -, hfirst⟩ | ⟨r, heq, -, -, hnone⟩ | ⟨heq, h0, -⟩
    · refine ⟨r, heq, ?_⟩
      by_contra hlt
      exact hfirst _ (by omega) hrun
    · exact absurd ⟨_, by omega, hrun⟩ (hnone hpos)
    · exfalso
      rcases h0 with h0 | h0
      · omega
      · exact h0 (h.free _ (by omega) (by omega))
  rw [kzalloc_eq hk size r heq (by omega)]
  obtain ⟨hs, hc, -⟩ := heap_mark_blocks_taken_spec k.heap r (heap_total_blocks size)
  refine ⟨?_, ⟨?_, ?_, ?_, ?_⟩, ?_, ?_, fun i h1 h2 => ?_⟩
  · have := hk.pos
    unfold blockAddr
    dsimp only
    omega
  · exact hs ▸ hk.aligned
  · exact hs ▸ hk.pos
  · dsimp only
    rw [hs, hc.total]
    exact hk.fits
  · dsimp only
    rw [hc.total]
    exact hk.small
  · dsimp only
    rw [h.oom]
    rfl
  · dsimp only
    rw [hc.total]
    omega
  · dsimp only at h1 h2 ⊢
    rw [hc.total] at h1 h2
    unfold HeapTable.Free
    rw [hc.frame i (by omega)]
    exact h.free i (by omega) h2

theorem room_kfree (ptr n : Nat) (h : Room k n) : Room (k.kfree ptr) n := by
  obtain ⟨htotal, hentries⟩ := heap_free_frees k.heap ptr
  have ht : (k.kfree ptr).heap.table.total = k.heap.table.total := htotal
  refine ⟨⟨h.heap.aligned, h.heap.pos, ?_, ?_⟩, h.oom, ?_, fun i h1 h2 => ?_⟩
  · rw [ht]
    exact h.heap.fits
  · rw [ht]
    exact h.heap.small
  · rw [ht]
    exact h.le
  · rw [ht] at h1 h2
    have hfree := h.free i h1 h2
    unfold HeapTable.Free at hfree ⊢
    unfold kfree
    dsimp only
    rcases hentries i with heq | heq
    · rw [heq]
      exact hfree
    · rw [heq]
      decide

/-! ## Page directories -/

theorem room_paging_new_loop (dir flags n i m : Nat) (offset : Int) (h : Room k (n + m)) :
    Room (paging_new_loop dir flags n i offset k) m := by
  induction n generalizing i offset k with
  | zero => rwa [Nat.zero_add] at h
  | succ n ih =>
    rw [paging_new_loop]
    have hroom := (room_kzalloc (4 * PAGING_TOTAL_ENTRIES_PER_TABLE) (n + m)
      (room_le _ _ h (by rw [table_blocks]; omega)) (by decide)).2
    exact ih _ _ (room_same _ hroom rfl rfl)

theorem room_paging_new_4gb (flags m : Nat) (h : Room k (1026 + m)) :
    (k.paging_new_4gb flags).1 ≠ 0 ∧ Room (k.paging_new_4gb flags).2 m := by
  obtain ⟨res, hres⟩ : ∃ res, k.kzalloc (4 * PAGING_TOTAL_ENTRIES_PER_TABLE) = res := ⟨_, rfl⟩
  obtain ⟨k1, hk1⟩ : ∃ k1, paging_new_loop res.1 flags PAGING_TOTAL_ENTRIES_PER_TABLE 0 0 res.2 = k1 :=
    ⟨_, rfl⟩
  obtain ⟨res', hres'⟩ : ∃ res', k1.kzalloc 4 = res' := ⟨_, rfl⟩
  rw [paging_new_4gb_eq k k1 flags res res' hres hk1 hres']
  have h1 := (room_kzalloc (4 * PAGING_TOTAL_ENTRIES_PER_TABLE) (1025 + m)
    (room_le _ _ h (by rw [table_blocks]; omega)) (by decide)).2
  rw [hres] at h1
  have h2 := room_paging_new_loop res.1 flags PAGING_TOTAL_ENTRIES_PER_TABLE 0 (1 + m) 0
    (room_le _ _ h1 (by unfold PAGING_TOTAL_ENTRIES_PER_TABLE; omega))
  rw [hk1] at h2
  obtain ⟨h3, h4⟩ := room_kzalloc 4 m h2 (by decide)
  rw [hres'] at h3 h4
  exact ⟨h3, room_same _ h4 rfl rfl⟩

theorem room_paging_free_loop (chunk n i m : Nat) (h : Room k m) : Room (paging_free_loop chunk n i k) m := by
  induction n generalizing i k with
  | zero => exact h
  | succ n ih =>
    rw [paging_free_loop]
    exact ih _ (room_kfree _ m h)

theorem room_paging_free_4gb (chunk m : Nat) (h : Room k m) : Room (k.paging_free_4gb chunk) m := by
  obtain ⟨k1, hk1⟩ : ∃ k1, paging_free_loop chunk 1024 0 k = k1 := ⟨_, rfl⟩
  have h1 := room_paging_free_loop chunk 1024 0 m h
  rw [hk1] at h1
  rw [paging_free_4gb_eq k k1 chunk hk1]
  exact room_kfree _ m (room_kfree _ m h1)

theorem room_paging_copy_loop (src dir n i m : Nat) (h : Room k (n + m)) :
    (paging_copy_loop src dir n i k).1 = true ∧ Room (paging_copy_loop src dir n i k).2 m := by
  induction n generalizing i k with
  | zero => exact ⟨rfl, by rwa [Nat.zero_add] at h⟩
  | succ n ih =>
    rw [paging_copy_loop]
    dsimp only
    obtain ⟨hne, hroom⟩ := room_kzalloc (4 * PAGING_TOTAL_ENTRIES_PER_TABLE) (n + m)
      (room_le _ _ h (by rw [table_blocks]; omega)) (by decide)
    rw [if_neg hne]
    exact ih _ (room_same _ hroom rfl rfl)

theorem room_paging_copy_4gb (src m : Nat) (h : Room k (1026 + m)) :
    (k.paging_copy_4gb src).1 ≠ 0 ∧ Room (k.paging_copy_4gb src).2 m := by
  obtain ⟨res, hres⟩ : ∃ res, k.kzalloc 4 = res := ⟨_, rfl⟩
  obtain ⟨res', hres'⟩ : ∃ res', res.2.kzalloc (4 * PAGING_TOTAL_ENTRIES_PER_TABLE) = res' := ⟨_, rfl⟩
  obtain ⟨res'', hres''⟩ : ∃ res'', paging_copy_loop src res'.1 PAGING_TOTAL_ENTRIES_PER_TABLE 0
    { res'.2 with mem := write32 res'.2.mem res.1 res'.1 } = res'' := ⟨_, rfl⟩
  rw [paging_copy_4gb_eq k src res res' res'' hres hres' hres'']
  obtain ⟨hne, h1⟩ := room_kzalloc 4 (1025 + m) (room_le _ _ h (by rw [word_blocks]; omega)) (by decide)
  rw [hres] at hne h1
  obtain ⟨hne', h2⟩ := room_kzalloc (4 * PAGING_TOTAL_ENTRIES_PER_TABLE) (1024 + m)
    (room_le _ _ h1 (by rw [table_blocks]; omega)) (by decide)
  rw [hres'] at hne' h2
  have hstart : Room { res'.2 with mem := write32 res'.2.mem res.1 res'.1 } (1024 + m) :=
    room_same _ h2 rfl rfl
  obtain ⟨hdone, h3⟩ := room_paging_copy_loop src res'.1 PAGING_TOTAL_ENTRIES_PER_TABLE 0 m hstart
  rw [hres''] at hdone h3
  rw [if_neg hne, if_neg hne', if_pos hdone]
  exact ⟨hne, h3⟩

/-! ## Tasks and processes -/

theorem room_task_new (process m : Nat) (h : Room k (1027 + m)) :
    (k.task_new process).1 ≠ 0 ∧ Room (k.task_new process).2 m := by
  obtain ⟨res, hres⟩ : ∃ res, k.kzalloc sizeof_task = res := ⟨_, rfl⟩
  obtain ⟨res', hres'⟩ : ∃ res',
    res.2.paging_new_4gb (PAGING_IS_PRESENT ||| PAGING_ACCESS_FROM_ALL) = res' := ⟨_, rfl⟩
  rw [task_new_eq k process res res' hres hres']
  obtain ⟨hne, h1⟩ := room_kzalloc sizeof_task (1026 + m)
    (room_le _ _ h (by rw [show heap_total_blocks sizeof_task = 1 by decide]; omega)) (by decide)
  rw [hres] at hne h1
  obtain ⟨hne', h2⟩ := room_paging_new_4gb (PAGING_IS_PRESENT ||| PAGING_ACCESS_FROM_ALL) m h1
  rw [hres'] at hne' h2
  have hinit : (task_init process res'.1).1 = 0 := by
    unfold task_init
    rw [if_neg hne']
  rw [if_neg hne]
  dsimp only
  rw [if_neg (by rw [hinit]; omega)]
  exact ⟨hne, room_same _ h2 rfl rfl⟩

theorem room_process_fork_task (parent child slot m : Nat) (h : Room k (2053 + m)) :
    ∃ k', k.process_fork_task parent child slot = (0, child, k') ∧ Room k' m := by
  obtain ⟨res, hres⟩ : ∃ res, k.task_new child = res := ⟨_, rfl⟩
  obtain ⟨hne, h1⟩ := room_task_new child (1026 + m) (room_le _ _ h (by omega))
  rw [hres] at hne h1
  obtain ⟨k1, hk1⟩ : ∃ k1, res.2.setProcess child { res.2.process child with task := res.1 } = k1 := ⟨_, rfl⟩
  obtain ⟨k2, hk2⟩ : ∃ k2, k1.paging_free_4gb (k1.tasks.task res.1).page_directory = k2 := ⟨_, rfl⟩
  obtain ⟨res', hres'⟩ : ∃ res',
    k2.paging_copy_4gb (k2.tasks.task (k2.process parent).task).page_directory = res' := ⟨_, rfl⟩
  rw [process_fork_task_eq k k1 k2 parent child slot res res' hres hne hk1 hk2 hres']
  have h2 : Room k1 (1026 + m) := room_same _ h1 (by rw [← hk1]; rfl) (by rw [← hk1]; rfl)
  have h3 := room_paging_free_4gb (k1.tasks.task res.1).page_directory _ h2
  rw [hk2] at h3
  obtain ⟨hne', h4⟩ := room_paging_copy_4gb (k2.tasks.task (k2.process parent).task).page_directory m h3
  rw [hres'] at hne' h4
  unfold process_fork_finish
  rw [if_neg hne']
  exact ⟨_, rfl, room_same m h4 rfl rfl⟩

theorem room_process_fork_stack (parent child slot m : Nat) (h : Room k (2057 + m)) :
    ∃ k', k.process_fork_stack parent child slot = (0, child, k') ∧ Room k' m := by
  obtain ⟨n, hn, hn1⟩ : ∃ n, PEACHOS_USER_PROGRAM_STACK_SIZE = n ∧ heap_total_blocks n = 4 :=
    ⟨_, rfl, by decide⟩
  obtain ⟨res, hres⟩ : ∃ res, k.kzalloc n = res := ⟨_, rfl⟩
  obtain ⟨hne, h1⟩ := room_kzalloc n (2053 + m) (room_le _ _ h (by rw [hn1]; omega)) (by rw [hn1]; omega)
  rw [hres] at hne h1
  rcases process_fork_stack_cases k parent child slot n hn res hres with ⟨h0, -⟩ | ⟨-, k1, _, _, heq, -, hset⟩
  · exact absurd h0 hne
  · rw [heq]
    exact room_process_fork_task parent child slot m (room_same _ h1 hset.heap hset.oom)

theorem room_process_fork_memory (parent child slot m : Nat) (hpos : 0 < (k.process parent).size)
    (hsize : (k.process parent).size ≤ 2 ^ 32 - 4096)
    (h : Room k (heap_total_blocks (k.process parent).size + (2057 + m))) :
    ∃ k', k.process_fork_memory parent child slot = (0, child, k') ∧ Room k' m := by
  obtain ⟨-, hcover⟩ := heap_total_blocks_of_le (k.process parent).size hsize
  obtain ⟨res, hres⟩ : ∃ res, k.kzalloc (k.process parent).size = res := ⟨_, rfl⟩
  obtain ⟨hne, h1⟩ := room_kzalloc (k.process parent).size (2057 + m) h (by
    unfold PEACHOS_HEAP_BLOCK_SIZE at hcover
    omega)
  rw [hres] at hne h1
  rcases process_fork_memory_cases k parent child slot res hres with ⟨h0, -⟩ | ⟨-, k1, _, heq, -, hset⟩
  · exact absurd h0 hne
  · rw [heq]
    exact room_process_fork_stack parent child slot m (room_same _ h1 hset.heap hset.oom)

theorem process_fork_succeeds (parent m : Nat) (h : Mapped k parent dir table)
    (hslot : 0 ≤ k.process_get_free_slot)
    (hroom : Room k (2 + (heap_total_blocks (k.process parent).size + (2057 + m)))) :
    ∃ child k', k.process_fork parent = (0, child, k') ∧ Room k' m := by
  obtain ⟨res, hres⟩ : ∃ res, k.kzalloc sizeof_process = res := ⟨_, rfl⟩
  unfold process_fork
  rw [hres]
  dsimp only
  rw [if_neg (by omega)]
  obtain ⟨hne, h1⟩ := room_kzalloc sizeof_process (heap_total_blocks (k.process parent).size + (2057 + m))
    hroom (by decide)
  obtain ⟨r, hall⟩ := kzalloc_spec h.heap sizeof_process (by decide) (by decide) hne
  have hfresh := allocated_ne _ r (by decide) (by decide) hall _ h.process_used
  rw [hres] at hne h1 hall hfresh
  rw [if_neg hne]
  have hp : (res.2.setProcess res.1 .zero).process parent = k.process parent := by
    rw [← hall.process]
    exact if_neg hfresh
  have hsize := h.size_pos
  have hfits := h.fits
  have hptr0 := usedAt_ne_zero h.heap _ h.ptr_used
  have hptra := (usedAt_aligned h.heap _ h.ptr_used).1
  obtain ⟨k', heq, hk'⟩ := room_process_fork_memory parent res.1 k.process_get_free_slot.toNat m
    (by rw [hp]; exact hsize) (by rw [hp]; omega) (by rw [hp]; exact room_same _ h1 rfl rfl)
  exact ⟨res.1, k', heq, hk'⟩

theorem room_process_load_task (process m : Nat) (slot : Int) (h : Room k (1027 + m)) :
    ∃ k', k.process_load_task process slot = (0, process, k') ∧ Room k' m := by
  obtain ⟨res, hres⟩ : ∃ res, k.task_new process = res := ⟨_, rfl⟩
  rw [process_load_task_eq k process slot res hres]
  obtain ⟨hne, h1⟩ := room_task_new process m h
  rw [hres] at hne h1
  rw [if_neg hne]
  dsimp only
  obtain ⟨mem, hmap⟩ := process_map_memory_result
    (res.2.setProcess process { res.2.process process with task := res.1 }) process
  rw [hmap, if_neg (by omega)]
  exact ⟨_, rfl, room_same m h1 rfl rfl⟩

theorem room_process_load_data (file : ProgramFile) (process m : Nat) (hopen : file.opened = true)
    (hstat : file.stat = 0) (hread : file.read = 1) (hpos : 1 ≤ heap_total_blocks file.filesize)
    (h : Room k (heap_total_blocks file.filesize + m)) :
    ∃ k', k.process_load_data file process = (0, k') ∧ Room k' m := by
  obtain ⟨hne, h1⟩ := room_kzalloc file.filesize m h hpos
  unfold process_load_data process_load_binary
  rw [if_neg (by rw [hopen]; decide), if_neg (not_not_intro hstat)]
  dsimp only
  rw [if_neg hne, if_neg (not_not_intro hread)]
  exact ⟨_, rfl, room_same m h1 rfl rfl⟩

theorem load_reaches_task (file : ProgramFile) (filename : Nat → UInt8) (slot : Int)
    (uninit m : Nat) (hslot : k.process_get slot = 0) (hopen : file.opened = true) (hstat : file.stat = 0)
    (hread : file.read = 1) (hpos : 1 ≤ heap_total_blocks file.filesize)
    (h : Room k (2 + (heap_total_blocks file.filesize + (4 + m)))) :
    ∃ process k3, k.process_load_for_slot file filename slot uninit = k3.process_load_task process slot ∧
      Room k3 m := by
  obtain ⟨res, hres⟩ : ∃ res, k.kzalloc sizeof_process = res := ⟨_, rfl⟩
  obtain ⟨data, hdata⟩ : ∃ data, (res.2.setProcess res.1 .zero).process_load_data file res.1 = data :=
    ⟨_, rfl⟩
  obtain ⟨res', hres'⟩ : ∃ res', data.2.kzalloc PEACHOS_USER_PROGRAM_STACK_SIZE = res' := ⟨_, rfl⟩
  rw [process_load_for_slot_eq k file filename slot uninit res res' data hres hdata hres']
  obtain ⟨hne, h1⟩ := room_kzalloc sizeof_process _ h (by decide)
  rw [hres] at hne h1
  obtain ⟨k2, heq, h2⟩ := room_process_load_data (k := res.2.setProcess res.1 .zero) file res.1 (4 + m)
    hopen hstat hread hpos (room_same _ h1 rfl rfl)
  rw [heq] at hdata
  rw [← hdata] at hres' ⊢
  obtain ⟨hne', h3⟩ := room_kzalloc PEACHOS_USER_PROGRAM_STACK_SIZE m h2 (by decide)
  rw [hres'] at hne' h3
  rw [if_neg (not_not_intro hslot), if_neg hne, if_neg (by omega), if_neg hne']
  exact ⟨res.1, _, rfl, room_same m h3 rfl rfl⟩

theorem process_load_for_slot_succeeds (file : ProgramFile) (filename : Nat → UInt8) (slot : Int)
    (uninit m : Nat) (hslot : k.process_get slot = 0) (hopen : file.opened = true) (hstat : file.stat = 0)
    (hread : file.read = 1) (hpos : 1 ≤ heap_total_blocks file.filesize)
    (h : Room k (2 + (heap_total_blocks file.filesize + (1031 + m)))) :
    ∃ process k', k.process_load_for_slot file filename slot uninit = (0, process, k') ∧ Room k' m := by
  obtain ⟨process, k3, heq, h3⟩ := load_reaches_task file filename slot uninit (1027 + m) hslot hopen hstat hread hpos
    (room_le _ _ h (by omega))
  obtain ⟨k', heq', h4⟩ := room_process_load_task process m slot h3
  exact ⟨process, k', heq.trans heq', h4⟩

end PeachOS.Memory
