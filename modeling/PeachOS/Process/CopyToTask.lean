import PeachOS.Process.PageMaps
import PeachOS.Spec.UserBuffers

/-!
# Copying to a task

`copy_to_task` writes through the directory of the task without a look at the address. In the pages of the process
it gets to its program and its stack. All other pages are mapped to themselves, also those of the kernel.
-/

open PeachOS.Lib PeachOS.Blocks PeachOS.Kernel

namespace PeachOS.Memory

variable {k k' : Kernel} {process chunk dir : Nat} {table : Nat → Nat} {m : FlatMap}

/-! ## One block from the heap -/

theorem one_block (size : Nat) (h1 : 1 ≤ size) (h2 : size ≤ 4096) : heap_total_blocks size = 1 := by
  obtain ⟨hneed, -⟩ := heap_total_blocks_of_le size (by unfold PEACHOS_HEAP_BLOCK_SIZE; omega)
  rw [hneed]
  unfold HeapState.needed PEACHOS_HEAP_BLOCK_SIZE
  omega

theorem kzalloc_null_start (hk : k.HeapOk) (size : Nat) (hnull : (k.kzalloc size).1 = 0) :
    heap_get_start_block k.heap (heap_total_blocks size) = -ENOMEM ∧
      (1 ≤ heap_total_blocks size → ¬ k.heap.table.HasRun (heap_total_blocks size)) := by
  have hne : ∀ r : Nat, heap_get_start_block k.heap (heap_total_blocks size) = r → ¬ r < k.heap.table.total := by
    intro r heq hr
    rw [kzalloc_eq hk size r heq hr] at hnull
    have hpos := hk.pos
    unfold blockAddr at hnull
    dsimp only at hnull
    omega
  rcases heap_get_start_block_spec k.heap (heap_total_blocks size) with
    ⟨r, heq, h1, hr, -⟩ | ⟨r, heq, hr, -⟩ | ⟨heq, -, hno⟩
  · exact absurd (show r < k.heap.table.total by omega) (hne r heq)
  · exact absurd hr (hne r heq)
  · exact ⟨heq, hno⟩

theorem kzalloc_null_iff (hk : k.HeapOk) (size : Nat) (h1 : 1 ≤ size) (h2 : size ≤ 4096) :
    (k.kzalloc size).1 = 0 ↔ ∀ i < k.heap.table.total, ¬ k.heap.table.Free i := by
  have hone := one_block size h1 h2
  constructor
  · intro hnull i hi hfree
    have hrun : k.heap.table.HasRun 1 := ⟨i, hi, fun j hj1 hj2 => by rwa [show j = i by omega]⟩
    rw [← hone] at hrun
    exact (kzalloc_null_start hk size hnull).2 (by omega) hrun
  · intro hno
    by_contra hne
    obtain ⟨r, hall⟩ := kzalloc_spec hk size h1 (by omega) hne
    exact hno r hall.lt (hall.free r (Nat.le_refl r) (by omega) hall.lt)

theorem kzalloc_null_mem (size : Nat) (h : (k.kzalloc size).1 = 0) : (k.kzalloc size).2.mem = k.mem := by
  unfold kzalloc at h ⊢
  dsimp only at h ⊢
  split
  · rfl
  · rename_i hne
    rw [if_neg hne] at h
    exact absurd h hne

theorem kzalloc_null_heap (hk : k.HeapOk) (size : Nat) (h : (k.kzalloc size).1 = 0) :
    (k.kzalloc size).2.heap = k.heap := by
  have hheap : (k.kzalloc size).2.heap = (heap_malloc k.heap size).2 := by
    unfold kzalloc kmalloc
    dsimp only
    split <;> rfl
  rw [hheap]
  unfold heap_malloc heap_malloc_blocks
  rw [(kzalloc_null_start hk size h).1]
  rfl

theorem kzalloc_null_next (hk : k.HeapOk) (size n r : Nat) (h1 : 1 ≤ size) (h2 : size ≤ 4096) (hn1 : 1 ≤ n)
    (hn2 : n ≤ 4096) (hall : Allocated k size k' r) (mem : Nat → UInt8) :
    (kzalloc { k' with mem := mem } n).1 = 0 ↔ ¬ ∃ i < k.heap.table.total, ∃ j < k.heap.table.total, i ≠ j ∧
      k.heap.table.Free i ∧ k.heap.table.Free j := by
  have hone := one_block size h1 h2
  have hfree := hall.free r (Nat.le_refl r) (by omega) hall.lt
  have hsame : ∀ i, i ≠ r → (k'.heap.table.Free i ↔ k.heap.table.Free i) := by
    intro i hne
    unfold HeapTable.Free
    rw [hall.others i (by omega)]
  rw [kzalloc_null_iff (heapOk_write (since_heapOk hall.since hk) mem) n hn1 hn2]
  dsimp only
  rw [hall.since.total]
  constructor
  · rintro hno ⟨i, hi, j, hj, hij, hfi, hfj⟩
    by_cases hir : i = r
    · exact hno j hj ((hsame j (fun hjr => hij (hir.trans hjr.symm))).mpr hfj)
    · exact hno i hi ((hsame i hir).mpr hfi)
  · intro hno i hi hfi
    by_cases hir : i = r
    · exact hall.marked i (by omega) (by omega) hfi
    · exact hno ⟨i, hi, r, hall.lt, hir, (hsame i hir).mp hfi, hfree⟩

/-! ## Bytes of free blocks -/

theorem freeByte_earlier (h : k.Since k') (x : Nat) (hx : k'.FreeByte x) : k.FreeByte x := by
  obtain ⟨i, hi, hfree, hlo, hhi⟩ := hx
  rw [h.total] at hi
  rw [h.saddr] at hlo hhi
  refine ⟨i, hi, ?_, hlo, hhi⟩
  by_contra hnot
  exact (since_used h i ⟨hi, hnot⟩).2 hfree

theorem allocated_freeByte (size r : Nat) (h1 : 1 ≤ size) (h2 : size ≤ 4096) (h : Allocated k size k' r) (x : Nat)
    (hlo : (k.kzalloc size).1 ≤ x) (hhi : x < (k.kzalloc size).1 + 4096) : k.FreeByte x := by
  have hone := one_block size h1 h2
  rw [h.addr] at hlo hhi
  exact ⟨r, h.lt, h.free r (Nat.le_refl r) (by omega) h.lt, hlo, hhi⟩

/-- `k'` is `k` with some buffers of the kernel in blocks that were free. -/
structure Staged (k k' : Kernel) : Prop where
  since : k.Since k'
  tasks : k'.tasks = k.tasks
  process : k'.process = k.process
  mem : ∀ x, ¬ k.FreeByte x → k'.mem x = k.mem x

theorem staged_fill (hk : k.HeapOk) (size r : Nat) (h1 : 1 ≤ size) (h2 : size ≤ 4096) (h : Allocated k size k' r)
    (mem : Nat → UInt8)
    (hmem : ∀ x, ¬ ((k.kzalloc size).1 ≤ x ∧ x < (k.kzalloc size).1 + 4096) → mem x = k'.mem x) :
    Staged k { k' with mem := mem } := by
  have hpage := page_of_allocated size r h (one_block size h1 h2)
  rw [← h.addr] at hpage
  refine ⟨since_write_page hk h.since _ hpage mem hmem, h.tasks, h.process, fun x hx => ?_⟩
  have hout : ¬ ((k.kzalloc size).1 ≤ x ∧ x < (k.kzalloc size).1 + 4096) := fun hin =>
    hx (allocated_freeByte size r h1 h2 h x hin.1 hin.2)
  refine (hmem x hout).trans (h.mem x fun hin => ?_)
  rw [← h.addr] at hin
  exact hout ⟨hin.1, by omega⟩

/-! ## The pages of the process -/

theorem loaded_staged (h : Loaded k process dir table) (hs : Staged k k') : Loaded k' process dir table := by
  have hk := h.heap
  have hsince := hs.since
  rcases k' with ⟨mem', heap', tasks', process', processes', oom'⟩
  obtain rfl : tasks' = k.tasks := hs.tasks
  obtain rfl : process' = k.process := hs.process
  have hget := paging_get_since hk h.pageDir hsince
  refine ⟨⟨since_heapOk hsince hk, h.size_pos, h.fits, since_usedAt hsince _ h.process_used,
    since_usedAt hsince _ h.task_used, since_usedAt hsince _ h.ptr_used, since_usedAt hsince _ h.stack_used,
    pageDir_since h.pageDir hsince, h.ptr_ne, ?_, ?_⟩, h.program_fits, h.virtual_fits, h.stack_fits, ?_, ?_⟩
  · intro i hi hlt
    exact (hget _ (by omega) hlt).trans (h.program i hi hlt)
  · intro i hi
    exact (hget _ (by omega) (by omega)).trans (h.stack i hi)
  · intro v hv hlt
    exact (hget v hv hlt).trans (h.map v hv hlt)
  · intro a ha
    exact ⟨since_taken hsince a (h.own a ha).1, (h.own a ha).2⟩

theorem own_of_page (a o : Nat) (ha : OwnPage (k.process process) a) (ho : o < 4096) : k.Own process (a + o) := by
  unfold Own pages
  rcases ha with ⟨i, hi, rfl⟩ | ⟨i, hi, rfl⟩
  · exact Or.inl ⟨by omega, by omega⟩
  · refine Or.inr ⟨by omega, ?_⟩
    rw [show PEACHOS_USER_PROGRAM_STACK_SIZE = 0x4000 from rfl]
    omega

/-- The entry for an address leads to the page `a`, which is present. -/
def Leads (m : FlatMap) (va a : Nat) : Prop :=
  (a % 4096 = 0 ∧ a < 2 ^ 32) ∧ ∃ f < 4096, f &&& 1 = 1 ∧ m (va - va % 4096) = a ||| f

theorem inPages_leads (h : Loaded k process dir table) (va : Nat) (hva : k.InPages process va) :
    ∃ a, OwnPage (k.process process) a ∧ Leads (LoadedMap (k.process process)) va a := by
  have hptr := (usedAt_aligned h.heap _ h.ptr_used).1
  have hstack := (usedAt_aligned h.heap _ h.stack_used).1
  have hf1 := h.program_fits
  have hf3 := h.stack_fits
  unfold InPages pages at hva
  rw [show PEACHOS_PROGRAM_VIRTUAL_ADDRESS = 0x400000 from rfl,
    show PEACHOS_PROGRAM_VIRTUAL_STACK_ADDRESS_END = 0x3FB000 from rfl,
    show PEACHOS_PROGRAM_VIRTUAL_STACK_ADDRESS_START = 0x3FF000 from rfl] at hva
  obtain ⟨i, hi⟩ : ∃ i, va - va % 4096 = i * 4096 := ⟨va / 4096, by omega⟩
  rcases hva with ⟨hlo, hhi⟩ | ⟨hlo, hhi⟩
  · refine ⟨(k.process process).ptr + (i - 1024) * 4096, Or.inl ⟨i - 1024, by omega, rfl⟩, by omega, 7,
      by omega, rfl, ?_⟩
    rw [hi, LoadedMap, if_neg (by omega), if_pos (by omega), show i * 4096 - 0x400000 = (i - 1024) * 4096 by omega]
  · refine ⟨(k.process process).stack + (i - 1019) * 4096, Or.inr ⟨i - 1019, by omega, rfl⟩, by omega, 7,
      by omega, rfl, ?_⟩
    rw [hi, LoadedMap, if_pos (by omega), show i * 4096 - 0x3FB000 = (i - 1019) * 4096 by omega]

/-! ## Copying through a directory -/

theorem page_walk_leads (hk : k.HeapOk) (h : Holds k chunk dir table 7 m) (va a : Nat) (hva : va < 2 ^ 32)
    (ha : Leads m va a) : page_walk k.mem dir va = some (a + va % 4096) := by
  obtain ⟨⟨hal, halt⟩, f, hf, hbit, hm⟩ := ha
  have htab := usedAt_aligned hk _ (h.pageDir.table_used (va / 4194304) (by omega))
  have hget := h.get (va - va % 4096) (by omega) (by omega)
  rw [paging_get_eq hk h.pageDir _ (by omega) (by omega), show (va - va % 4096) / 4194304 = va / 4194304 by omega,
    show (va - va % 4096) % 4194304 / 4096 = va % 4194304 / 4096 by omega, hm] at hget
  unfold page_walk PAGING_IS_PRESENT
  dsimp only
  rw [h.pageDir.entry _ (by omega), table_of_or _ 7 htab.1 htab.2 (by omega), hget, table_of_or a f hal halt hf,
    and_of_or _ 7 1 htab.1 (by omega) rfl, and_of_or a f 1 hal (by omega) hbit]
  rfl

theorem holds_outside (hk : k.HeapOk) (h : Holds k chunk dir table 7 m) (a : Nat) (ha : a % 4096 = 0)
    (hout : ¬ InDir chunk dir table a) (mem : Nat → UInt8) (hmem : ∀ x, x < a ∨ a + 4096 ≤ x → mem x = k.mem x) :
    Holds { k with mem := mem } chunk dir table 7 m := by
  refine holds_write hk h mem fun c hc o ho => hmem _ ?_
  have hca := (usedAt_aligned hk c (inDir_used h.pageDir c hc)).1
  have hne : c ≠ a := fun heq => hout (heq ▸ hc)
  omega

theorem memcpy_paged_frame (hk : k.HeapOk) (P : Nat → Prop) (len dest src : Nat) (mem : Nat → UInt8)
    (h : Holds { k with mem := mem } chunk dir table 7 m) (hd : dest < 2 ^ 32) (hs : src < 2 ^ 32)
    (hsrc : ∀ j < len, ∃ a, Leads m ((src + j) % 2 ^ 32) a)
    (hdest : ∀ j < len, ∃ a, Leads m ((dest + j) % 2 ^ 32) a ∧ ¬ InDir chunk dir table a ∧ ∀ o < 4096, P (a + o)) :
    ∃ mem', memcpy_paged dir len dest src mem = some mem' ∧ Holds { k with mem := mem' } chunk dir table 7 m ∧
      ∀ x, ¬ P x → mem' x = mem x := by
  induction len generalizing dest src mem with
  | zero => exact ⟨mem, rfl, h, fun _ _ => rfl⟩
  | succ len ih =>
    obtain ⟨b, hb⟩ := hsrc 0 (by omega)
    obtain ⟨a, ha, hout, hP⟩ := hdest 0 (by omega)
    rw [Nat.add_zero, Nat.mod_eq_of_lt hs] at hb
    rw [Nat.add_zero, Nat.mod_eq_of_lt hd] at ha
    have hk' := heapOk_write hk mem
    have hwalk := page_walk_leads hk' h src b hs hb
    have hwalk' := page_walk_leads hk' h dest a hd ha
    dsimp only at hwalk hwalk'
    have hkeep :=
      holds_outside hk' h a ha.1.1 hout (fun x => if x = a + dest % 4096 then mem (b + src % 4096) else mem x)
      fun x hx => if_neg (by omega)
    have hu : ∀ y : Nat, u32 ((y : Int) + 1) = (y + 1) % 2 ^ 32 := fun y => u32_natCast (y + 1)
    have hnext : ∀ y j, ((y + 1) % 2 ^ 32 + j) % 2 ^ 32 = (y + (j + 1)) % 2 ^ 32 := fun y j => by omega
    obtain ⟨mem', heq, hholds, hframe⟩ :=
      ih ((dest + 1) % 2 ^ 32) ((src + 1) % 2 ^ 32) _ hkeep (Nat.mod_lt _ (by decide)) (Nat.mod_lt _ (by decide))
      (fun j hj => by rw [hnext]; exact hsrc (j + 1) (by omega))
      (fun j hj => by rw [hnext]; exact hdest (j + 1) (by omega))
    refine ⟨mem', ?_, hholds, fun x hx => ?_⟩
    · rw [memcpy_paged, hwalk, hwalk', hu, hu]
      exact heq
    · rw [hframe x hx]
      refine if_neg ?_
      rintro rfl
      exact hx (hP _ (Nat.mod_lt _ (by decide)))

/-! ## The block table in memory -/

theorem memory_of_not {x : Nat} (h : ¬ k.TableByte x) : k.memory x = k.mem x := if_neg h

theorem tableByte_iff (hsaddr : k'.heap.saddr = k.heap.saddr) (htotal : k'.heap.table.total = k.heap.table.total)
    (x : Nat) : k'.TableByte x ↔ k.TableByte x := by
  unfold TableByte
  rw [hsaddr, htotal]

theorem memory_same (hheap : k'.heap = k.heap) (hmem : k'.mem = k.mem) : k'.memory = k.memory := by
  funext x
  unfold memory
  rw [hheap, hmem]
  exact if_congr (tableByte_iff (by rw [hheap]) (by rw [hheap]) x) rfl rfl

theorem not_tableByte_of_le {x : Nat} (h : k.heap.saddr ≤ x) : ¬ k.TableByte x := by
  rintro ⟨-, -, hlt⟩
  omega

theorem usedAt_le (a : Nat) (ha : k.UsedAt a) : k.heap.saddr ≤ a := by
  obtain ⟨i, rfl, -⟩ := ha
  unfold blockAddr
  omega

theorem memory_usedAt (a o : Nat) (ha : k.UsedAt a) : k.memory (a + o) = k.mem (a + o) := by
  have hle := usedAt_le a ha
  exact memory_of_not (not_tableByte_of_le (by omega))

theorem holds_memory (hk : k.HeapOk) (h : Holds k chunk dir table 7 m) :
    Holds { k with mem := k.memory } chunk dir table 7 m :=
  holds_write hk h _ fun a ha o _ => memory_usedAt a o (inDir_used h.pageDir a ha)

theorem setMemory_mem (mem : Nat → UInt8) (x : Nat) :
    (k.setMemory mem).mem x = if k.TableByte x then k.mem x else mem x := rfl

theorem setMemory_heap (mem : Nat → UInt8) (hmem : ∀ x, k.TableByte x → mem x = k.memory x) :
    (k.setMemory mem).heap = k.heap := by
  have hentries : (k.setMemory mem).heap.table.entries = k.heap.table.entries := by
    funext i
    show (if k.TableByte (PEACHOS_HEAP_TABLE_ADDRESS + i) then _ else _) = _
    split
    · rename_i hin
      rw [hmem _ hin, memory, if_pos hin, Nat.add_sub_cancel_left]
    · rfl
  show { k.heap with table := { k.heap.table with entries := (k.setMemory mem).heap.table.entries } } = k.heap
  rw [hentries]

theorem setMemory_frame (P : Nat → Prop) (mem : Nat → UInt8) (hmem : ∀ x, ¬ P x → mem x = k.memory x) (x : Nat)
    (hx : ¬ P x) : (k.setMemory mem).mem x = k.mem x := by
  rw [setMemory_mem]
  split
  · rfl
  · rename_i hout
    rw [hmem x hx, memory_of_not hout]

/-! ## `copy_to_task` -/

section Copy

variable (task user kbuf size : Nat)

theorem copy_to_task_eq (res : Nat × Kernel) (hlt : size < 4096) (hres : k.kzalloc size = res) (hne : res.1 ≠ 0) :
    k.copy_to_task task user kbuf size =
      let mem := memcpy res.2.memory res.1 kbuf size
      let chunk := (res.2.tasks.task task).page_directory
      let mem' := (paging_map mem chunk res.1 res.1 7).2
      (memcpy_paged (read32 mem' chunk) size user res.1 mem').map fun mem'' =>
        let set := paging_set mem'' (read32 mem chunk) res.1 (paging_get mem (read32 mem chunk) res.1)
        (if set.1 < 0 then - EIO else set.1, (res.2.setMemory set.2).kfree res.1) := by
  subst hres
  unfold copy_to_task
  rw [if_neg (show ¬ size ≥ PAGING_PAGE_SIZE by unfold PAGING_PAGE_SIZE; omega)]
  dsimp only
  rw [if_neg hne]
  rfl

theorem copy_to_task_null (hlt : size < 4096) (hnull : (k.kzalloc size).1 = 0) :
    k.copy_to_task task user kbuf size = some (-ENOMEM, (k.kzalloc size).2) := by
  unfold copy_to_task
  rw [if_neg (show ¬ size ≥ PAGING_PAGE_SIZE by unfold PAGING_PAGE_SIZE; omega)]
  dsimp only
  rw [if_pos hnull]

theorem paging_set_result (mem : Nat → UInt8) (directory virt val : Nat) (h : virt % 4096 = 0) :
    (paging_set mem directory virt val).1 = 0 := by
  have hal : paging_is_aligned virt = true := decide_eq_true h
  unfold paging_set
  rw [paging_get_indexes_spec virt h]
  simp [hal]

/-- Whatever the address is, the copy is not refused. -/
theorem copy_to_task_result (hk : k.HeapOk) (h1 : 1 ≤ size) (hlt : size < 4096) (hne : (k.kzalloc size).1 ≠ 0) (r : Int)
    (heq : k.copy_to_task task user kbuf size = some (r, k')) : r = 0 := by
  obtain ⟨b, hall⟩ := kzalloc_spec hk size h1 (by omega) hne
  have hal := (usedAt_aligned (since_heapOk hall.since hk) _ (usedAt_allocated size b hall)).1
  rw [copy_to_task_eq task user kbuf size _ hlt rfl hne] at heq
  obtain ⟨mem, -, hres⟩ := Option.map_eq_some_iff.mp heq
  have hr := (Prod.mk.inj hres).1
  rw [paging_set_result _ _ _ _ hal] at hr
  exact hr.symm

end Copy

theorem write32_back (mem mem' : Nat → UInt8) (e : Nat) (P : Nat → Prop) (val : Nat)
    (hframe : ∀ x, ¬ P x → mem' x = write32 mem e val x) (x : Nat) (hx : ¬ P x) :
    write32 mem' e (read32 mem e) x = mem x := by
  by_cases hin : e ≤ x ∧ x < e + 4
  · refine (if_pos hin).trans ((bytes32_le32 _ _ (by omega)).trans ?_)
    rw [Nat.add_sub_cancel' hin.1]
  · rw [write32_of_not e _ x hin, hframe x hx, write32_of_not e _ x hin]

theorem map_self (hk : k.HeapOk) (h : Holds k chunk dir table 7 m) (tmp : Nat) (hal : tmp % 4096 = 0)
    (htlt : tmp < 2 ^ 32) :
    paging_map k.mem chunk tmp tmp 7 = (0, write32 k.mem (entryAddr table tmp) (tmp ||| 7)) ∧
      Holds { k with mem := write32 k.mem (entryAddr table tmp) (tmp ||| 7) } chunk dir table 7
        (m.set tmp (tmp ||| 7)) := by
  obtain ⟨mem, hset, -, hholds⟩ := paging_set_spec hk h tmp (tmp ||| 7) hal htlt (or_lt tmp 7 hal (by omega) htlt)
  have hmem : mem = write32 k.mem (entryAddr table tmp) (tmp ||| 7) := by
    rw [h.pageDir.chunk_eq, paging_set_eq hk h.pageDir tmp _ hal htlt] at hset
    exact (Prod.mk.inj hset).2.symm
  rw [hmem] at hset hholds
  refine ⟨?_, hholds⟩
  unfold paging_map
  rw [if_neg (by unfold PAGING_PAGE_SIZE; omega), hset]

theorem leads_self (m : FlatMap) (tmp : Nat) (hal : tmp % 4096 = 0) (htlt : tmp < 2 ^ 32) (va : Nat)
    (hva : va - va % 4096 = tmp) : Leads (m.set tmp (tmp ||| 7)) va tmp :=
  ⟨⟨hal, htlt⟩, 7, by omega, rfl, if_pos hva⟩

theorem leads_other (tmp va a val : Nat) (hva : va - va % 4096 ≠ tmp) (h : Leads m va a) :
    Leads (m.set tmp val) va a := by
  obtain ⟨haa, f, hf, hbit, hentry⟩ := h
  exact ⟨haa, f, hf, hbit, (if_neg hva).trans hentry⟩

theorem set_back (hk : k.HeapOk) (h : Holds k chunk dir table 7 m) (tmp : Nat) (hal : tmp % 4096 = 0)
    (htlt : tmp < 2 ^ 32) (mem : Nat → UInt8) (hmem : PageDir { k with mem := mem } chunk dir table 7) :
    paging_set mem (read32 k.mem chunk) tmp (paging_get k.mem (read32 k.mem chunk) tmp) =
      (0, write32 mem (entryAddr table tmp) (read32 k.mem (entryAddr table tmp))) := by
  rw [h.pageDir.chunk_eq, paging_get_eq hk h.pageDir tmp hal htlt]
  exact paging_set_eq (heapOk_write hk mem) hmem tmp _ hal htlt

theorem mapped_copy (hk : k.HeapOk) (h : Holds k chunk dir table 7 m) (P : Nat → Prop) (tmp user size : Nat)
    (hal : tmp % 4096 = 0) (htlt : tmp < 2 ^ 32) (hsize : size ≤ 4096) (huser : user < 2 ^ 32)
    (htmp : ¬ InDir chunk dir table tmp ∧ ∀ o < 4096, P (tmp + o))
    (hdest : ∀ j < size, ∃ a, Leads m ((user + j) % 2 ^ 32) a ∧ ¬ InDir chunk dir table a ∧ ∀ o < 4096, P (a + o)) :
    ∃ mem' mem'', memcpy_paged (read32 (paging_map k.mem chunk tmp tmp 7).2 chunk) size user tmp
        (paging_map k.mem chunk tmp tmp 7).2 = some mem' ∧
      paging_set mem' (read32 k.mem chunk) tmp (paging_get k.mem (read32 k.mem chunk) tmp) = (0, mem'') ∧
      ∀ x, ¬ P x → mem'' x = k.mem x := by
  obtain ⟨hmap, hholds⟩ := map_self hk h tmp hal htlt
  have hdir : read32 (write32 k.mem (entryAddr table tmp) (tmp ||| 7)) chunk = dir := hholds.pageDir.chunk_eq
  obtain ⟨mem', heq, hholds', hframe⟩ := memcpy_paged_frame hk P size user tmp _ hholds huser htlt
    (fun j hj => ⟨tmp, leads_self m tmp hal htlt _ (by omega)⟩)
    (fun j hj => by
      by_cases hva : (user + j) % 2 ^ 32 - (user + j) % 2 ^ 32 % 4096 = tmp
      · exact ⟨tmp, leads_self m tmp hal htlt _ hva, htmp⟩
      · obtain ⟨a, ha, hrest⟩ := hdest j hj
        exact ⟨a, leads_other tmp _ a _ hva ha, hrest⟩)
  refine ⟨mem', _, ?_, set_back hk h tmp hal htlt mem' hholds'.pageDir, write32_back k.mem mem' _ P _ hframe⟩
  rw [hmap, hdir]
  exact heq

theorem copy_to_task_inside (h : Loaded k process dir table) (user kbuf size : Nat) (h1 : 1 ≤ size) (hlt : size < 4096)
    (huser : user < 2 ^ 32) (hin : k.BufferInside process user size) (hne : (k.kzalloc size).1 ≠ 0) :
    ∃ k', k.copy_to_task (k.process process).task user kbuf size = some (0, k') ∧
      ∀ x, ¬ k.FreeByte x → ¬ k.Own process x → k'.mem x = k.mem x := by
  obtain ⟨r, hall⟩ := kzalloc_spec h.heap size h1 (by omega) hne
  have hfree := allocated_freeByte size r h1 (by omega) hall
  have hpage := page_of_allocated size r hall (one_block size h1 (by omega))
  rw [← hall.addr] at hpage
  have hst := staged_fill h.heap size r h1 (by omega) hall (k.kzalloc size).2.mem fun _ _ => rfl
  have hk1 := since_heapOk hall.since h.heap
  obtain ⟨hal, htlt⟩ := usedAt_aligned hk1 _ hpage.2
  have htmp : ¬ InDir _ dir table (k.kzalloc size).1 := fun hd =>
    page_ne hall.since _ _ hpage (inDir_used h.pageDir _ hd) rfl
  -- the block is filled in all of the memory
  have hfilled := holds_outside (heapOk_write hk1 _)
    (holds_memory hk1 (holds_since h.heap ⟨h.pageDir, h.map⟩ hall.since)) (k.kzalloc size).1 hal htmp
    (memcpy (k.kzalloc size).2.memory (k.kzalloc size).1 kbuf size) fun x hx => memcpy_of_not _ _ _ _ (by omega)
  obtain ⟨mem', mem'', hcopy, hset, hframe⟩ := mapped_copy (heapOk_write hk1 _) hfilled
    (fun x => k.Own process x ∨ k.FreeByte x) (k.kzalloc size).1 user size hal htlt (by omega) huser
    ⟨htmp, fun o ho => Or.inr (hfree _ (by omega) (by omega))⟩
    (fun j hj => by
      obtain ⟨a, ha, hleads⟩ := inPages_leads h _ (hin j hj)
      refine ⟨a, hleads, ?_, fun o ho => Or.inl (own_of_page a o ha ho)⟩
      obtain ⟨-, hc, hd, ht⟩ := h.own a ha
      rintro (rfl | rfl | ⟨i, hi, rfl⟩)
      · exact hc rfl
      · exact hd rfl
      · exact ht i hi rfl)
  refine ⟨((k.kzalloc size).2.setMemory mem'').kfree (k.kzalloc size).1, ?_, ?_⟩
  · rw [copy_to_task_eq _ user kbuf size _ hlt rfl hne, hall.tasks]
    dsimp only at hcopy hset ⊢
    rw [hcopy, Option.map_some, hset]
    rfl
  · intro x hx hown
    refine (setMemory_frame (fun x => k.Own process x ∨ k.FreeByte x) mem'' ?_ x fun hor => hor.elim hown hx).trans
      (hst.mem x hx)
    intro y hy
    rw [hframe y hy]
    apply memcpy_of_not
    intro hin
    exact hy (Or.inr (hfree y hin.1 (by omega)))

end PeachOS.Memory
