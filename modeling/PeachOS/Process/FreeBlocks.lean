import PeachOS.Heap.Outstanding
import PeachOS.Process.CopyToTask
import PeachOS.Spec.Traces

/-!
# How many blocks are free

A new task takes 1027 blocks one by one: the task, the directory, its 1024 tables and the chunk. So the number of free
blocks says whether there is a new task. The copy of a directory takes one block less.
-/

open PeachOS.Lib PeachOS.Blocks PeachOS.Kernel

namespace PeachOS.Memory

variable {k k' k'' : Kernel} {n : Nat} {base : HeapTable} {runs : List (Nat × Nat)}

/-! ## The flag `oom` is not read -/

theorem kzalloc_flag (k : Kernel) (b : Bool) (size : Nat) :
    ∃ c, kzalloc { k with oom := b } size = ((k.kzalloc size).1, { (k.kzalloc size).2 with oom := c }) := by
  unfold kzalloc kmalloc
  dsimp only
  split
  · exact ⟨_, rfl⟩
  · exact ⟨_, rfl⟩

theorem paging_new_loop_flag (dir flags n i : Nat) (offset : Int) (k : Kernel) (b : Bool) :
    ∃ c, paging_new_loop dir flags n i offset { k with oom := b } =
      { paging_new_loop dir flags n i offset k with oom := c } := by
  induction n generalizing i offset k b with
  | zero => exact ⟨b, rfl⟩
  | succ n ih =>
    obtain ⟨c, hc⟩ := kzalloc_flag k b (4 * PAGING_TOTAL_ENTRIES_PER_TABLE)
    rw [paging_new_loop, paging_new_loop, hc]
    generalize k.kzalloc (4 * PAGING_TOTAL_ENTRIES_PER_TABLE) = res
    exact ih _ _ { res.2 with mem := _ } c

theorem paging_new_4gb_flag (k : Kernel) (b : Bool) (flags : Nat) :
    ∃ c, paging_new_4gb { k with oom := b } flags =
      ((k.paging_new_4gb flags).1, { (k.paging_new_4gb flags).2 with oom := c }) := by
  obtain ⟨res, hres⟩ : ∃ res, k.kzalloc (4 * PAGING_TOTAL_ENTRIES_PER_TABLE) = res := ⟨_, rfl⟩
  obtain ⟨k1, hk1⟩ : ∃ k1, paging_new_loop res.1 flags PAGING_TOTAL_ENTRIES_PER_TABLE 0 0 res.2 = k1 := ⟨_, rfl⟩
  obtain ⟨c1, hc1⟩ := kzalloc_flag k b (4 * PAGING_TOTAL_ENTRIES_PER_TABLE)
  obtain ⟨c2, hc2⟩ := paging_new_loop_flag res.1 flags PAGING_TOTAL_ENTRIES_PER_TABLE 0 0 res.2 c1
  obtain ⟨c3, hc3⟩ := kzalloc_flag k1 c2 4
  rw [hres] at hc1
  rw [hk1] at hc2
  rw [paging_new_4gb_eq _ _ flags _ _ hres hk1 rfl, paging_new_4gb_eq _ _ flags _ _ hc1 hc2 hc3]
  exact ⟨c3, rfl⟩

theorem paging_free_loop_flag (chunk n i : Nat) (k : Kernel) (b : Bool) :
    paging_free_loop chunk n i { k with oom := b } = { paging_free_loop chunk n i k with oom := b } := by
  induction n generalizing i k with
  | zero => rfl
  | succ n ih =>
    rw [paging_free_loop, paging_free_loop]
    exact ih _ (k.kfree _)

theorem paging_free_4gb_flag (k : Kernel) (b : Bool) (chunk : Nat) :
    paging_free_4gb { k with oom := b } chunk = { k.paging_free_4gb chunk with oom := b } := by
  obtain ⟨k1, hk1⟩ : ∃ k1, paging_free_loop chunk 1024 0 k = k1 := ⟨_, rfl⟩
  have hloop := paging_free_loop_flag chunk 1024 0 k b
  rw [hk1] at hloop
  rw [paging_free_4gb_eq k k1 chunk hk1, paging_free_4gb_eq _ _ chunk hloop]
  rfl

theorem task_free_flag (k : Kernel) (b : Bool) (task : Nat) :
    task_free { k with oom := b } task = { k.task_free task with oom := b } := by
  unfold task_free
  dsimp only
  rw [paging_free_4gb_flag]
  generalize k.paging_free_4gb (k.tasks.task task).page_directory = k1
  rfl

theorem task_new_flag (k : Kernel) (b : Bool) (process : Nat) :
    ∃ c, task_new { k with oom := b } process =
      ((k.task_new process).1, { (k.task_new process).2 with oom := c }) := by
  obtain ⟨c1, hc1⟩ := kzalloc_flag k b sizeof_task
  obtain ⟨res, hres⟩ : ∃ res, k.kzalloc sizeof_task = res := ⟨_, rfl⟩
  rw [hres] at hc1
  obtain ⟨c2, hc2⟩ := paging_new_4gb_flag res.2 c1 (PAGING_IS_PRESENT ||| PAGING_ACCESS_FROM_ALL)
  obtain ⟨res', hres'⟩ : ∃ res', res.2.paging_new_4gb (PAGING_IS_PRESENT ||| PAGING_ACCESS_FROM_ALL) = res' := ⟨_, rfl⟩
  rw [hres'] at hc2
  rw [task_new_eq k process res res' hres hres', task_new_eq { k with oom := b } process _ _ hc1 hc2]
  dsimp only
  split
  · exact ⟨c1, by rw [task_free_flag]⟩
  split
  · exact ⟨c2, by rw [← task_free_flag]⟩
  · exact ⟨c2, rfl⟩

theorem paging_copy_loop_flag (src dir n i : Nat) (k : Kernel) (b : Bool) :
    ∃ c, paging_copy_loop src dir n i { k with oom := b } =
      ((paging_copy_loop src dir n i k).1, { (paging_copy_loop src dir n i k).2 with oom := c }) := by
  induction n generalizing i k b with
  | zero => exact ⟨b, rfl⟩
  | succ n ih =>
    obtain ⟨c, hc⟩ := kzalloc_flag k b (4 * PAGING_TOTAL_ENTRIES_PER_TABLE)
    rw [paging_copy_loop, paging_copy_loop, hc]
    generalize k.kzalloc (4 * PAGING_TOTAL_ENTRIES_PER_TABLE) = res
    dsimp only
    split
    · exact ⟨c, rfl⟩
    · exact ih _ { res.2 with mem := _ } c

theorem paging_copy_4gb_flag (k : Kernel) (b : Bool) (src : Nat) :
    ∃ c, paging_copy_4gb { k with oom := b } src =
      ((k.paging_copy_4gb src).1, { (k.paging_copy_4gb src).2 with oom := c }) := by
  obtain ⟨res, hres⟩ : ∃ res, k.kzalloc 4 = res := ⟨_, rfl⟩
  obtain ⟨res', hres'⟩ : ∃ res', res.2.kzalloc (4 * PAGING_TOTAL_ENTRIES_PER_TABLE) = res' := ⟨_, rfl⟩
  obtain ⟨res'', hres''⟩ : ∃ res'', paging_copy_loop src res'.1 PAGING_TOTAL_ENTRIES_PER_TABLE 0
    { res'.2 with mem := write32 res'.2.mem res.1 res'.1 } = res'' := ⟨_, rfl⟩
  obtain ⟨c1, hc1⟩ := kzalloc_flag k b 4
  obtain ⟨c2, hc2⟩ := kzalloc_flag res.2 c1 (4 * PAGING_TOTAL_ENTRIES_PER_TABLE)
  obtain ⟨c3, hc3⟩ := paging_copy_loop_flag src res'.1 PAGING_TOTAL_ENTRIES_PER_TABLE 0
    { res'.2 with mem := write32 res'.2.mem res.1 res'.1 } c2
  rw [hres] at hc1
  rw [hres'] at hc2
  rw [hres''] at hc3
  rw [paging_copy_4gb_eq k src res res' res'' hres hres' hres'', paging_copy_4gb_eq _ src _ _ _ hc1 hc2 hc3]
  dsimp only
  split
  · exact ⟨c1, rfl⟩
  split
  · exact ⟨c2, rfl⟩
  split
  · exact ⟨c3, rfl⟩
  · exact ⟨c3, rfl⟩

/-! ## Taking blocks -/

theorem freeBlocks_same (h : k'.heap = k.heap) : k'.freeBlocks = k.freeBlocks := by
  unfold freeBlocks
  rw [h]

theorem freeBlocks_pos_iff (k : Kernel) : 0 < k.freeBlocks ↔ ∃ i < k.heap.table.total, k.heap.table.Free i := by
  unfold freeBlocks
  rw [Finset.card_pos]
  simp [Finset.Nonempty]

theorem hasRun_one_iff (k : Kernel) : k.heap.table.HasRun 1 ↔ 0 < k.freeBlocks := by
  rw [freeBlocks_pos_iff]
  constructor
  · rintro ⟨i, hi, hfree⟩
    exact ⟨i, hi, hfree i (Nat.le_refl i) (by omega)⟩
  · rintro ⟨i, hi, hfree⟩
    exact ⟨i, hi, fun j h1 h2 => by rwa [show j = i by omega]⟩

theorem freeBlocks_erase (r : Nat) (hr : r < k.heap.table.total) (hfree : k.heap.table.Free r)
    (htotal : k'.heap.table.total = k.heap.table.total)
    (hiff : ∀ i < k.heap.table.total, k'.heap.table.Free i ↔ k.heap.table.Free i ∧ i ≠ r) :
    k'.freeBlocks + 1 = k.freeBlocks := by
  have hmem : r ∈ (Finset.range k.heap.table.total).filter fun i => k.heap.table.Free i := by simp [hr, hfree]
  have herase : ((Finset.range k'.heap.table.total).filter fun i => k'.heap.table.Free i) =
      ((Finset.range k.heap.table.total).filter fun i => k.heap.table.Free i).erase r := by
    ext i
    simp only [htotal, Finset.mem_filter, Finset.mem_range, Finset.mem_erase]
    constructor
    · rintro ⟨hi, hfi⟩
      have := (hiff i hi).mp hfi
      exact ⟨this.2, hi, this.1⟩
    · rintro ⟨hne, hi, hfi⟩
      exact ⟨hi, (hiff i hi).mpr ⟨hfi, hne⟩⟩
  unfold freeBlocks
  rw [herase]
  exact Finset.card_erase_add_one hmem

theorem kzalloc_takes (hk : k.HeapOk) (size : Nat) (h1 : 1 ≤ size)
    (hrun : k.heap.table.HasRun (HeapState.needed size)) :
    (k.kzalloc size).1 ≠ 0 ∧ (k.kzalloc size).2.oom = k.oom ∧ size ≤ 2 ^ 32 - 4096 ∧
      ∃ r, Allocated k size (k.kzalloc size).2 r ∧ ∀ base runs, TakenOver base k.heap.table runs →
        TakenOver base (k.kzalloc size).2.heap.table ((r, HeapState.needed size) :: runs) := by
  have hsmall := hk.small
  have hneed := needed_pos size h1
  have h2 : size ≤ 2 ^ 32 - 4096 := by
    obtain ⟨s, hs, -⟩ := hrun
    unfold HeapState.needed PEACHOS_HEAP_BLOCK_SIZE at hs
    omega
  have hblocks := (heap_total_blocks_of_le size h2).1
  rcases heap_get_start_block_spec k.heap (HeapState.needed size) with
    ⟨r, heq, -, hr, hfree, -⟩ | ⟨r, -, -, -, hnone⟩ | ⟨-, -, hnone⟩
  · have hz := kzalloc_eq hk size r (by rw [hblocks]; exact heq) (by omega)
    have hne : (k.kzalloc size).1 ≠ 0 := by
      have hpos := hk.pos
      rw [hz]
      unfold blockAddr
      dsimp only
      omega
    obtain ⟨r', hall⟩ := kzalloc_spec hk size h1 h2 hne
    have hr' : r' = r := by
      apply blockAddr_inj k
      rw [← hall.addr, hz]
    rw [hr'] at hall
    refine ⟨hne, by rw [hz]; exact Bool.or_false _, h2, r, hall, ?_⟩
    intro base runs h
    have htake := takenOver_take h r _ hneed hr hfree
    rw [hz, hblocks]
    exact htake
  · exact absurd hrun (hnone hneed)
  · exact absurd hrun (hnone hneed)

theorem kzalloc_one (hk : k.HeapOk) (size : Nat) (h1 : 1 ≤ size) (h2 : size ≤ 4096) :
    (k.freeBlocks = 0 ∧ (k.kzalloc size).1 = 0 ∧ (k.kzalloc size).2 = { k with oom := true }) ∨
      ((k.kzalloc size).2.freeBlocks + 1 = k.freeBlocks ∧ (k.kzalloc size).1 ≠ 0 ∧
        (k.kzalloc size).2.oom = k.oom ∧ ∃ r, Allocated k size (k.kzalloc size).2 r ∧
          ∀ base runs, TakenOver base k.heap.table runs →
            TakenOver base (k.kzalloc size).2.heap.table ((r, 1) :: runs)) := by
  have hone : HeapState.needed size = 1 := by
    unfold HeapState.needed PEACHOS_HEAP_BLOCK_SIZE
    omega
  rcases Nat.eq_zero_or_pos k.freeBlocks with h0 | hpos
  · left
    rcases kzalloc_cases hk size with ⟨hnull, heq⟩ | ⟨⟨r, hr, haddr⟩, -⟩
    · exact ⟨h0, hnull, heq⟩
    · -- There is a free block, since the allocation got one.
      have hne : (k.kzalloc size).1 ≠ 0 := by
        have := hk.pos
        rw [haddr]
        unfold blockAddr
        omega
      have hno := mt (kzalloc_null_iff hk size h1 h2).mpr hne
      have hnone : ¬ 0 < k.freeBlocks := by omega
      rw [freeBlocks_pos_iff] at hnone
      exact absurd (fun i hi hfree => hnone ⟨i, hi, hfree⟩) hno
  · right
    obtain ⟨hne, hoom, -, r, hall, htakes⟩ := kzalloc_takes hk size h1 (by rwa [hone, hasRun_one_iff])
    rw [hone] at htakes
    refine ⟨?_, hne, hoom, r, hall, htakes⟩
    have hbefore := hall.free r (Nat.le_refl r) (by rw [one_block size h1 h2]; omega) hall.lt
    apply freeBlocks_erase r hall.lt hbefore hall.since.total
    intro i hi
    rw [takenOver_free_iff (htakes k.heap.table [] (takenOver_refl _)) i hi]
    simp only [List.mem_singleton, forall_eq, covers_one]

/-- `k'` comes from `k` by `n` allocations of one block each, whatever is written in between. -/
inductive OneBlocks : Nat → Kernel → Kernel → Prop
  | same {k k' : Kernel} (hheap : k'.heap = k.heap) (hoom : k'.oom = k.oom) : OneBlocks 0 k k'
  | step {n : Nat} {k k1 k' : Kernel} (size : Nat) (h1 : 1 ≤ size) (h2 : size ≤ 4096)
      (hheap : k1.heap = (k.kzalloc size).2.heap) (hoom : k1.oom = (k.kzalloc size).2.oom)
      (h : OneBlocks n k1 k') : OneBlocks (n + 1) k k'

theorem kzalloc_heap (size : Nat) (hheap : k'.heap = k.heap) :
    (k'.kzalloc size).2.heap = (k.kzalloc size).2.heap := by
  unfold kzalloc kmalloc
  dsimp only
  rw [hheap]
  split
  · rfl
  · rfl

theorem kzalloc_flag_same (size : Nat) (hheap : k'.heap = k.heap) (hoom : k'.oom = k.oom) :
    (k'.kzalloc size).2.oom = (k.kzalloc size).2.oom := by
  unfold kzalloc kmalloc
  dsimp only
  rw [hheap, hoom]
  split
  · rfl
  · rfl

theorem oneBlocks_congr (h : OneBlocks n k' k'') (hheap : k'.heap = k.heap) (hoom : k'.oom = k.oom) :
    OneBlocks n k k'' := by
  cases h with
  | same hheap' hoom' => exact .same (hheap'.trans hheap) (hoom'.trans hoom)
  | step size h1 h2 hheap' hoom' h =>
    exact .step size h1 h2 (hheap'.trans (kzalloc_heap size hheap)) (hoom'.trans (kzalloc_flag_same size hheap hoom)) h

theorem oneBlocks_trans {m : Nat} (h : OneBlocks n k k') (h' : OneBlocks m k' k'') : OneBlocks (m + n) k k'' := by
  induction h with
  | same hheap hoom => exact oneBlocks_congr h' hheap hoom
  | step size h1 h2 hheap hoom _ ih => exact .step size h1 h2 hheap hoom (ih h')

theorem oneBlocks_free (hk : k.HeapOk) (h : OneBlocks n k k') :
    k'.HeapOk ∧ k'.freeBlocks = k.freeBlocks - n := by
  induction h with
  | same hheap _ => exact ⟨heapOk_same hk hheap, freeBlocks_same hheap⟩
  | @step n k k1 k' size h1 h2 hheap _ _ ih =>
    obtain ⟨h3, h4⟩ := ih (heapOk_same (grows_heapOk (grows_kzalloc hk size) hk) hheap)
    refine ⟨h3, ?_⟩
    rw [h4, freeBlocks_same hheap]
    rcases kzalloc_one hk size h1 h2 with ⟨h0, -, heq⟩ | ⟨hcount, -⟩
    · rw [heq]
      have hsame : freeBlocks { k with oom := true } = k.freeBlocks := rfl
      omega
    · omega

theorem oneBlocks_oom (hk : k.HeapOk) (h : OneBlocks n k k') (hn : n ≤ k.freeBlocks) : k'.oom = k.oom := by
  induction h with
  | same _ hoom => exact hoom
  | @step n k k1 k' size h1 h2 hheap hoom _ ih =>
    rcases kzalloc_one hk size h1 h2 with ⟨h0, -⟩ | ⟨hcount, -, hoom', -⟩
    · omega
    have hk1 := heapOk_same (grows_heapOk (grows_kzalloc hk size) hk) hheap
    rw [← freeBlocks_same hheap] at hcount
    rw [ih hk1 (by omega), hoom, hoom']

theorem oneBlocks_takes (hk : k.HeapOk) (h : OneBlocks n k k') (hn : n ≤ k.freeBlocks)
    (hover : TakenOver base k.heap.table runs) :
    ∃ new : List Nat, new.length = n ∧ TakenOver base k'.heap.table (new.map (·, 1) ++ runs) := by
  induction h generalizing runs with
  | same hheap _ =>
    refine ⟨[], rfl, ?_⟩
    rw [hheap]
    exact hover
  | @step n k k1 k' size h1 h2 hheap _ _ ih =>
    rcases kzalloc_one hk size h1 h2 with ⟨h0, -⟩ | ⟨hcount, -, -, r, -, htakes⟩
    · omega
    have hk1 := heapOk_same (grows_heapOk (grows_kzalloc hk size) hk) hheap
    rw [← freeBlocks_same hheap] at hcount
    have hfirst := htakes base runs hover
    rw [← hheap] at hfirst
    obtain ⟨new, hlen, hnew⟩ := ih hk1 (by omega) hfirst
    refine ⟨new ++ [r], by simp [hlen], ?_⟩
    simpa using hnew

/-! ## Freeing -/

/-- Freeing changes nothing but the table. -/
def withTable (k : Kernel) (t : HeapTable) : Kernel := { k with heap := { k.heap with table := t } }

theorem heapOk_table (hk : k.HeapOk) (t : HeapTable) (ht : t.total = k.heap.table.total) : (withTable k t).HeapOk := by
  refine ⟨hk.aligned, hk.pos, ?_, ?_⟩
  · show k.heap.saddr + t.total * 4096 < 2 ^ 32
    rw [ht]
    exact hk.fits
  · show t.total * 4096 < 0x80000000
    rw [ht]
    exact hk.small

theorem kfree_table (k : Kernel) (ptr : Nat) :
    ∃ t : HeapTable, t.total = k.heap.table.total ∧ k.kfree ptr = withTable k t :=
  ⟨_, (heap_free_frees k.heap ptr).1, rfl⟩

theorem paging_free_loop_table (chunk n i : Nat) (k : Kernel) :
    ∃ t : HeapTable, t.total = k.heap.table.total ∧ paging_free_loop chunk n i k = withTable k t := by
  induction n generalizing i k with
  | zero => exact ⟨k.heap.table, rfl, rfl⟩
  | succ n ih =>
    rw [paging_free_loop]
    obtain ⟨t, ht, heq⟩ := kfree_table k (table_of (read32 k.mem (read32 k.mem chunk + 4 * i)))
    rw [heq]
    obtain ⟨t', ht', heq'⟩ := ih (i + 1) (withTable k t)
    exact ⟨t', ht'.trans ht, heq'⟩

theorem paging_free_4gb_table (k : Kernel) (chunk : Nat) :
    ∃ t : HeapTable, t.total = k.heap.table.total ∧ k.paging_free_4gb chunk = withTable k t := by
  obtain ⟨t, ht, heq⟩ := paging_free_loop_table chunk 1024 0 k
  rw [paging_free_4gb_eq k _ chunk heq]
  obtain ⟨t1, ht1, heq1⟩ := kfree_table (withTable k t) (read32 (withTable k t).mem chunk)
  rw [heq1]
  obtain ⟨t2, ht2, heq2⟩ := kfree_table (withTable k t1) chunk
  exact ⟨t2, (ht2.trans ht1).trans ht, heq2⟩

theorem task_free_table (k : Kernel) (task : Nat) :
    ∃ t : HeapTable, t.total = k.heap.table.total ∧
      k.task_free task = { withTable k t with tasks := k.tasks.task_list_remove task } := by
  obtain ⟨t, ht, heq⟩ := paging_free_4gb_table k (k.tasks.task task).page_directory
  unfold task_free
  rw [heq]
  obtain ⟨t1, ht1, heq1⟩ := kfree_table { withTable k t with tasks := k.tasks.task_list_remove task } task
  exact ⟨t1, ht1.trans ht, heq1⟩

theorem kfree_takenOver (hk : k.HeapOk) (i m : Nat) (h : TakenOver base k.heap.table ((i, m) :: runs)) :
    TakenOver base (k.kfree (k.blockAddr i)).heap.table runs := by
  have hin := h.inside (i, m) List.mem_cons_self
  have hsmall := hk.small
  rw [← h.total] at hin
  have hblock : heap_address_to_block k.heap (k.blockAddr i) = i :=
    heap_address_to_block_spec k.heap i (block_small hsmall hin)
  unfold kfree heap_free
  rw [hblock]
  exact takenOver_give i m h

theorem freeBlocks_restored (h : TakenOver k.heap.table k'.heap.table []) : k'.freeBlocks = k.freeBlocks := by
  unfold freeBlocks
  rw [h.total]
  congr 1
  ext i
  simp only [Finset.mem_filter, Finset.mem_range, and_congr_right_iff]
  intro hi
  rw [takenOver_free_iff h i hi]
  simp

/-! ## A new task -/

theorem paging_new_loop_oneBlocks (dir flags n i : Nat) (offset : Int) (k : Kernel) :
    OneBlocks n k (paging_new_loop dir flags n i offset k) := by
  induction n generalizing i offset k with
  | zero => exact .same rfl rfl
  | succ n ih =>
    rw [paging_new_loop]
    refine .step (4 * PAGING_TOTAL_ENTRIES_PER_TABLE) (by decide) (by decide) ?_ ?_ (ih _ _ _)
    · rfl
    · rfl

theorem paging_new_4gb_blocks (hk : k.HeapOk) (flags : Nat) :
    OneBlocks 1026 k (k.paging_new_4gb flags).2 ∧ ((k.paging_new_4gb flags).1 = 0 ↔ k.freeBlocks < 1026) := by
  obtain ⟨res, hres⟩ : ∃ res, k.kzalloc (4 * PAGING_TOTAL_ENTRIES_PER_TABLE) = res := ⟨_, rfl⟩
  obtain ⟨k1, hk1⟩ : ∃ k1, paging_new_loop res.1 flags PAGING_TOTAL_ENTRIES_PER_TABLE 0 0 res.2 = k1 := ⟨_, rfl⟩
  obtain ⟨res', hres'⟩ : ∃ res', k1.kzalloc 4 = res' := ⟨_, rfl⟩
  have hloop := paging_new_loop_oneBlocks res.1 flags PAGING_TOTAL_ENTRIES_PER_TABLE 0 0 res.2
  rw [hk1] at hloop
  have hfirst : OneBlocks 1025 k k1 :=
    .step (4 * PAGING_TOTAL_ENTRIES_PER_TABLE) (by decide) (by decide) (by rw [hres]) (by rw [hres]) hloop
  rw [paging_new_4gb_eq k k1 flags res res' hres hk1 hres']
  have hlast : OneBlocks 1 k1 { res'.2 with mem := write32 res'.2.mem res'.1 res.1 } :=
    .step 4 (by decide) (by decide) (by rw [hres']) (by rw [hres']) (.same rfl rfl)
  refine ⟨oneBlocks_trans hfirst hlast, ?_⟩
  obtain ⟨hkk, hcount⟩ := oneBlocks_free hk hfirst
  dsimp only
  rw [← hres']
  rcases kzalloc_one hkk 4 (by decide) (by decide) with ⟨h0, hnull, -⟩ | ⟨hone, hne, -⟩
  · exact ⟨fun _ => by omega, fun _ => hnull⟩
  · exact ⟨fun h => absurd h hne, fun h => by omega⟩

theorem task_new_cases (hk : k.HeapOk) (process : Nat) :
    (1027 ≤ k.freeBlocks ∧ OneBlocks 1027 k (k.task_new process).2) ∨
      (k.freeBlocks < 1027 ∧ ((k.task_new process).1 = u32 (-ENOMEM) ∨ (k.task_new process).1 = u32 (- EIO)) ∧
        (k.task_new process).2.HeapOk) := by
  obtain ⟨res, hres⟩ : ∃ res, k.kzalloc sizeof_task = res := ⟨_, rfl⟩
  obtain ⟨res', hres'⟩ : ∃ res', res.2.paging_new_4gb (PAGING_IS_PRESENT ||| PAGING_ACCESS_FROM_ALL) = res' := ⟨_, rfl⟩
  have hk1 := grows_heapOk (grows_kzalloc hk sizeof_task) hk
  rw [hres] at hk1
  obtain ⟨hblocks, hnull⟩ := paging_new_4gb_blocks hk1 (PAGING_IS_PRESENT ||| PAGING_ACCESS_FROM_ALL)
  rw [hres'] at hblocks hnull
  have hk2 := (oneBlocks_free hk1 hblocks).1
  have hone := kzalloc_one hk sizeof_task (by decide) (by decide)
  rw [hres] at hone
  rw [task_new_eq k process res res' hres hres']
  rcases hone with ⟨h0, h1, -⟩ | ⟨hcount, h1, -⟩
  · rw [if_pos h1]
    obtain ⟨t, ht, heq⟩ := task_free_table res.2 res.1
    refine Or.inr ⟨by omega, Or.inl rfl, ?_⟩
    dsimp only
    rw [heq]
    exact heapOk_same (heapOk_table hk1 t ht) rfl
  · rw [if_neg h1]
    dsimp only
    by_cases hc : res'.1 = 0
    · have hinit : (task_init process res'.1).1 = - EIO := by
        unfold task_init
        rw [if_pos hc]
      rw [hinit, if_pos (by decide)]
      have hlt := hnull.mp hc
      obtain ⟨t, ht, heq⟩ := task_free_table
        { res'.2 with tasks := res'.2.tasks.set res.1 (task_init process res'.1).2 } res.1
      refine Or.inr ⟨by omega, Or.inr rfl, ?_⟩
      dsimp only
      rw [heq]
      exact heapOk_same (heapOk_table hk2 t ht) rfl
    · have hinit : (task_init process res'.1).1 = 0 := by
        unfold task_init
        rw [if_neg hc]
      rw [hinit, if_neg (by omega)]
      have hge := mt hnull.mpr hc
      refine Or.inl ⟨by omega, ?_⟩
      exact .step sizeof_task (by decide) (by decide) (by rw [hres]) (by rw [hres])
        (oneBlocks_trans hblocks (.same rfl rfl))

theorem task_new_enough (hk : k.HeapOk) (process : Nat) (hcount : 1027 ≤ k.freeBlocks) :
    OneBlocks 1027 k (k.task_new process).2 ∧ (k.task_new process).1 ≠ 0 ∧ ∃ k1 chunk dir table,
      NewTask k (k.task_new process).2 (k.task_new process).1 k1 chunk dir table := by
  rcases task_new_cases hk process with ⟨-, hblocks⟩ | ⟨hlt, -⟩
  · refine ⟨hblocks, ?_⟩
    -- The same call with the flag cleared before it.
    have hk0 : HeapOk { k with oom := false } := heapOk_same hk rfl
    have hcount0 : 1027 ≤ freeBlocks { k with oom := false } := hcount
    have hoom : (task_new { k with oom := false } process).2.oom = false := by
      rcases task_new_cases hk0 process with ⟨-, hblocks0⟩ | ⟨hlt, -⟩
      · exact oneBlocks_oom hk0 hblocks0 hcount0
      · omega
    obtain ⟨-, hne, k1, chunk, dir, table, h⟩ := task_new_spec hk0 process hoom
    obtain ⟨c, hc⟩ := task_new_flag k false process
    rw [hc] at hne h
    exact ⟨hne, k1, chunk, dir, table, since_trans (since_same rfl rfl : k.Since { k with oom := false }) h.since,
      newDir_since h.newDir (since_same rfl rfl), h.used, h.fresh, h.own, h.other, h.process, h.processes⟩
  · omega

/-! ## The copy of a directory -/

theorem paging_copy_loop_cases (hk : k.HeapOk) (src dir n i : Nat) :
    (n ≤ k.freeBlocks ∧ (paging_copy_loop src dir n i k).1 = true ∧
        OneBlocks n k (paging_copy_loop src dir n i k).2) ∨
      (k.freeBlocks < n ∧ (paging_copy_loop src dir n i k).1 = false ∧
        (paging_copy_loop src dir n i k).2.freeBlocks = 0) := by
  induction n generalizing i k with
  | zero => exact Or.inl ⟨Nat.zero_le _, rfl, .same rfl rfl⟩
  | succ n ih =>
    obtain ⟨res, hres⟩ : ∃ res, k.kzalloc (4 * PAGING_TOTAL_ENTRIES_PER_TABLE) = res := ⟨_, rfl⟩
    have hk1 := grows_heapOk (grows_kzalloc hk (4 * PAGING_TOTAL_ENTRIES_PER_TABLE)) hk
    have hone := kzalloc_one hk (4 * PAGING_TOTAL_ENTRIES_PER_TABLE) (by decide) (by decide)
    rw [hres] at hk1 hone
    rw [paging_copy_loop]
    dsimp only
    rw [hres]
    rcases hone with ⟨h0, hnull, heq⟩ | ⟨hcount, hne, -⟩
    · rw [if_pos hnull]
      refine Or.inr ⟨by omega, rfl, ?_⟩
      dsimp only
      rw [heq]
      exact h0
    · rw [if_neg hne]
      generalize hmem : write32 _ _ _ = mem
      have hcount1 : freeBlocks { res.2 with mem := mem } = res.2.freeBlocks := freeBlocks_same rfl
      rcases ih (heapOk_same hk1 rfl : HeapOk { res.2 with mem := mem }) (i + 1) with
        ⟨h1, h2, h3⟩ | ⟨h1, h2, h3⟩
      · exact Or.inl ⟨by omega, h2, .step (4 * PAGING_TOTAL_ENTRIES_PER_TABLE) (by decide) (by decide) (by rw [hres])
          (by rw [hres]) h3⟩
      · exact Or.inr ⟨by omega, h2, h3⟩

theorem paging_copy_4gb_cases (hk : k.HeapOk) (src : Nat) :
    (1026 ≤ k.freeBlocks ∧ (k.paging_copy_4gb src).1 ≠ 0 ∧ OneBlocks 1026 k (k.paging_copy_4gb src).2) ∨
      (k.freeBlocks < 1026 ∧ (k.paging_copy_4gb src).1 = 0 ∧ (k.paging_copy_4gb src).2.freeBlocks ≤ 1) := by
  obtain ⟨res, hres⟩ : ∃ res, k.kzalloc 4 = res := ⟨_, rfl⟩
  obtain ⟨res', hres'⟩ : ∃ res', res.2.kzalloc (4 * PAGING_TOTAL_ENTRIES_PER_TABLE) = res' := ⟨_, rfl⟩
  obtain ⟨res'', hres''⟩ : ∃ res'', paging_copy_loop src res'.1 PAGING_TOTAL_ENTRIES_PER_TABLE 0
    { res'.2 with mem := write32 res'.2.mem res.1 res'.1 } = res'' := ⟨_, rfl⟩
  rw [paging_copy_4gb_eq k src res res' res'' hres hres' hres'']
  have hk1 := grows_heapOk (grows_kzalloc hk 4) hk
  have hone := kzalloc_one hk 4 (by decide) (by decide)
  rw [hres] at hk1 hone
  rcases hone with ⟨h0, hnull, heq⟩ | ⟨hcount, hne, -, r, hall, htakes⟩
  · rw [if_pos hnull, heq]
    refine Or.inr ⟨by omega, rfl, ?_⟩
    exact Nat.le_trans (Nat.le_of_eq h0) (Nat.zero_le 1)
  rw [if_neg hne]
  have hk2 := grows_heapOk (grows_kzalloc hk1 (4 * PAGING_TOTAL_ENTRIES_PER_TABLE)) hk1
  have hone' := kzalloc_one hk1 (4 * PAGING_TOTAL_ENTRIES_PER_TABLE) (by decide) (by decide)
  rw [hres'] at hk2 hone'
  rcases hone' with ⟨h0, hnull, heq⟩ | ⟨hcount', hne', -⟩
  · -- The block for the chunk is given back.
    rw [if_pos hnull, heq]
    have hgive := kfree_takenOver hk1 r 1 (htakes k.heap.table [] (takenOver_refl _))
    rw [since_addr hall.since, ← hall.addr, hres] at hgive
    have hback := freeBlocks_restored hgive
    refine Or.inr ⟨by omega, rfl, ?_⟩
    have hsame : (kfree { res.2 with oom := true } res.1).freeBlocks = (res.2.kfree res.1).freeBlocks := rfl
    dsimp only
    rw [hsame, hback]
    omega
  · rw [if_neg hne']
    have hloop := paging_copy_loop_cases (heapOk_same hk2 rfl :
      HeapOk { res'.2 with mem := write32 res'.2.mem res.1 res'.1 }) src res'.1 PAGING_TOTAL_ENTRIES_PER_TABLE 0
    rw [hres''] at hloop
    have hcount1 : freeBlocks { res'.2 with mem := write32 res'.2.mem res.1 res'.1 } = res'.2.freeBlocks :=
      freeBlocks_same rfl
    unfold PAGING_TOTAL_ENTRIES_PER_TABLE at hloop
    rcases hloop with ⟨h1, h2, h3⟩ | ⟨h1, h2, h3⟩
    · rw [if_pos h2]
      refine Or.inl ⟨by omega, hne, ?_⟩
      exact .step 4 (by decide) (by decide) (by rw [hres]) (by rw [hres])
        (.step (4 * PAGING_TOTAL_ENTRIES_PER_TABLE) (by decide) (by decide) (by rw [hres']) (by rw [hres']) h3)
    · rw [if_neg (by rw [h2]; decide)]
      exact Or.inr ⟨by omega, rfl, Nat.le_trans (Nat.le_of_eq h3) (Nat.zero_le 1)⟩

theorem paging_copy_4gb_enough {src sdir f : Nat} {stable : Nat → Nat} (hk : k.HeapOk)
    (hsrc : PageDir k src sdir stable f) (hcount : 1026 ≤ k.freeBlocks) :
    OneBlocks 1026 k (k.paging_copy_4gb src).2 ∧ SameRecords k (k.paging_copy_4gb src).2 ∧ ∃ dir table,
      NewDir k (k.paging_copy_4gb src).2 (k.paging_copy_4gb src).1 dir table f fun i o => k.mem (stable i + o) := by
  rcases paging_copy_4gb_cases hk src with ⟨-, -, hblocks⟩ | ⟨hlt, -⟩
  · refine ⟨hblocks, ?_⟩
    have hk0 : HeapOk { k with oom := false } := heapOk_same hk rfl
    have hcount0 : 1026 ≤ freeBlocks { k with oom := false } := hcount
    have hoom : (paging_copy_4gb { k with oom := false } src).2.oom = false := by
      rcases paging_copy_4gb_cases hk0 src with ⟨-, -, hblocks0⟩ | ⟨hlt, -⟩
      · exact oneBlocks_oom hk0 hblocks0 hcount0
      · omega
    have hs : k.Since { k with oom := false } := since_same rfl rfl
    obtain ⟨-, hsame, dir, table, hdir⟩ := paging_copy_4gb_spec hk0 (pageDir_since hsrc hs) hoom
    obtain ⟨c, hc⟩ := paging_copy_4gb_flag k false src
    rw [hc] at hsame hdir
    exact ⟨⟨hsame.tasks, hsame.process, hsame.processes⟩, dir, table,
      newDir_since (newDir_earlier hs hdir) (since_same rfl rfl)⟩
  · omega

end PeachOS.Memory
