import PeachOS.Code.Process
import PeachOS.Process.Since

/-!
# Page directories in memory

`paging_new_4gb` builds a directory in new pages, `paging_free_4gb` gives exactly these pages back, and
`paging_copy_4gb` copies every page table as it is.
-/

open PeachOS.Lib PeachOS.Blocks PeachOS.Kernel

namespace PeachOS

/-- The chunk at `chunk` leads to the directory `dir`, whose entry `i` leads to the table `table i` and has
the flags `f`. All these are different pages in use. -/
structure PageDir (k : Kernel) (chunk dir : Nat) (table : Nat → Nat) (f : Nat) : Prop where
  flags : f < 4096
  chunk_used : k.UsedAt chunk
  dir_used : k.UsedAt dir
  table_used : ∀ i < 1024, k.UsedAt (table i)
  chunk_ne : dir ≠ chunk ∧ ∀ i < 1024, table i ≠ chunk
  dir_ne : ∀ i < 1024, table i ≠ dir
  table_inj : ∀ i < 1024, ∀ j < 1024, table i = table j → i = j
  chunk_eq : read32 k.mem chunk = dir
  entry : ∀ i < 1024, read32 k.mem (dir + 4 * i) = table i ||| f

namespace Memory

variable {k k' k'' : Kernel} {chunk dir f : Nat} {table : Nat → Nat} {content : Nat → Nat → UInt8}

theorem pageDir_since (h : PageDir k chunk dir table f) (hs : k.Since k') :
    PageDir k' chunk dir table f := by
  refine ⟨h.flags, since_usedAt hs _ h.chunk_used, since_usedAt hs _ h.dir_used,
    fun i hi => since_usedAt hs _ (h.table_used i hi), h.chunk_ne, h.dir_ne, h.table_inj, ?_,
    fun i hi => ?_⟩
  · have := since_read32 hs chunk h.chunk_used 0 (by omega)
    rw [Nat.add_zero] at this
    rw [this, h.chunk_eq]
  · rw [since_read32 hs dir h.dir_used (4 * i) (by omega), h.entry i hi]

theorem pageDir_table (hk : k.HeapOk) (h : PageDir k chunk dir table f) (i : Nat) (hi : i < 1024) :
    table_of (read32 k.mem (dir + 4 * i)) = table i := by
  obtain ⟨h1, h2⟩ := usedAt_aligned hk _ (h.table_used i hi)
  rw [h.entry i hi, table_of_or _ f h1 h2 h.flags]

theorem table_blocks : heap_total_blocks (4 * PAGING_TOTAL_ENTRIES_PER_TABLE) = 1 := by decide

theorem word_blocks : heap_total_blocks 4 = 1 := by decide

/-! ## Building a directory table by table -/

/-- The part of a directory that a loop has built: `dir` and the first `n` tables are new since `k`, and
table `i` has the bytes `content i`. -/
structure Building (k k' : Kernel) (dir : Nat) (table : Nat → Nat) (f : Nat)
    (content : Nat → Nat → UInt8) (n : Nat) : Prop where
  flags : f < 4096
  since : k.Since k'
  dir_page : Page k k' dir
  table_page : ∀ i < n, Page k k' (table i)
  dir_ne : ∀ i < n, table i ≠ dir
  table_inj : ∀ i < n, ∀ j < n, table i = table j → i = j
  entry : ∀ i < n, read32 k'.mem (dir + 4 * i) = table i ||| f
  bytes : ∀ i < n, ∀ o < 4096, k'.mem (table i + o) = content i o

theorem building_zero (hf : f < 4096) (hs : k.Since k') (hdir : Page k k' dir) :
    Building k k' dir table f content 0 :=
  ⟨hf, hs, hdir, fun i hi => by omega, fun i hi => by omega, fun i hi => by omega, fun i hi => by omega,
    fun i hi => by omega⟩

theorem building_since (n : Nat) (h : Building k k' dir table f content n) (hs : k'.Since k'')
    (hn : n ≤ 1024) : Building k k'' dir table f content n := by
  refine ⟨h.flags, since_trans h.since hs, page_since _ h.dir_page hs,
    fun i hi => page_since _ (h.table_page i hi) hs, h.dir_ne, h.table_inj, fun i hi => ?_,
    fun i hi o ho => ?_⟩
  · rw [since_read32 hs dir h.dir_page.2 (4 * i) (by omega), h.entry i hi]
  · rw [hs.mem _ (h.table_page i hi).2 o ho, h.bytes i hi o ho]

theorem building_add (hk : k.HeapOk) (n : Nat) (hn : n < 1024) (h : Building k k' dir table f content n)
    (a : Nat) (ha : Page k' k'' a) (hs : k'.Since k'') (mem : Nat → UInt8)
    (hmem : ∀ x, ¬ (a ≤ x ∧ x < a + 4096) → mem x = k''.mem x)
    (hcontent : ∀ o < 4096, mem (a + o) = content n o) :
    Building k { k'' with mem := write32 mem (dir + 4 * n) (a ||| f) } dir
      (fun i => if i = n then a else table i) f content (n + 1) := by
  have hk' := since_heapOk h.since hk
  have hdir := page_since dir h.dir_page hs
  have hne := page_ne hs a dir ha h.dir_page.2
  obtain ⟨h1, h2⟩ := usedAt_aligned (since_heapOk hs hk') a ha.2
  have hapart := usedAt_apart hk' dir a h.dir_page.2 h1 hne
  have hs1 := since_write_page hk (since_trans h.since hs) a (page_earlier a h.since ha) mem hmem
  have hold : ∀ i < n + 1, i ≠ n → table i ≠ a := fun i hi hin =>
    page_ne hs a _ ha (h.table_page i (by omega)).2
  refine ⟨h.flags, since_write_page hk hs1 dir hdir _ fun x hx => write32_of_not _ _ _ (by omega), hdir,
    fun i hi => ?_, fun i hi => ?_, fun i hi j hj heq => ?_, fun i hi => ?_, fun i hi o ho => ?_⟩
  · split
    · exact page_earlier a h.since ha
    · exact (page_since _ (h.table_page i (by omega)) hs : Page k k'' (table i))
  · split
    · exact hne.symm
    · exact h.dir_ne i (by omega)
  · split at heq <;> split at heq
    · omega
    · exact absurd heq.symm (hold j hj (by assumption))
    · exact absurd heq (hold i hi (by assumption))
    · exact h.table_inj i (by omega) j (by omega) heq
  · dsimp only
    split
    · rename_i heq
      rw [heq, read32_write32_same _ _ (or_lt a f h1 h.flags h2)]
    · rw [read32_write32_other _ _ _ (by omega), ← h.entry i (by omega),
        ← since_read32 hs dir h.dir_page.2 (4 * i) (by omega)]
      exact read32_congr _ _ fun j hj => hmem _ (by omega)
  · dsimp only
    split
    · rename_i heq
      rw [heq, write32_of_not _ _ _ (by omega), hcontent o ho]
    · -- An earlier table is neither the new table nor the directory.
      have hused := (h.table_page i (by omega)).2
      have hnd := h.dir_ne i (by omega)
      have hna := hold i hi (by assumption)
      have htl := (usedAt_aligned hk' _ hused).1
      have hdl := (usedAt_aligned hk' _ h.dir_page.2).1
      rw [write32_of_not _ _ _ (by omega), hmem _ (by omega), hs.mem _ hused o ho, h.bytes i (by omega) o ho]

/-- The records and the process table are the same. -/
structure SameRecords (k k' : Kernel) : Prop where
  tasks : k'.tasks = k.tasks
  process : k'.process = k.process
  processes : k'.processes = k.processes

theorem sameRecords_trans (h : SameRecords k k') (h' : SameRecords k' k'') : SameRecords k k'' :=
  ⟨h'.tasks.trans h.tasks, h'.process.trans h.process, h'.processes.trans h.processes⟩

theorem sameRecords_allocated (size r : Nat) (h : Allocated k size k' r) : SameRecords k k' :=
  ⟨h.tasks, h.process, h.processes⟩

/-- A directory in pages that are new since `k`, with the bytes of its tables. -/
structure NewDir (k k' : Kernel) (chunk dir : Nat) (table : Nat → Nat) (f : Nat)
    (content : Nat → Nat → UInt8) : Prop where
  since : k.Since k'
  pageDir : PageDir k' chunk dir table f
  chunk_page : Page k k' chunk
  dir_page : Page k k' dir
  table_page : ∀ i < 1024, Page k k' (table i)
  bytes : ∀ i < 1024, ∀ o < 4096, k'.mem (table i + o) = content i o

/-! ## `paging_new_4gb` -/

theorem paging_new_table_of_not (entry : Nat) (offset : Int) (flags n b : Nat) (mem : Nat → UInt8)
    (x : Nat) (hx : ¬ (entry + 4 * b ≤ x ∧ x < entry + 4 * (b + n))) :
    paging_new_table entry offset flags n b mem x = mem x := by
  induction n generalizing b mem with
  | zero => rfl
  | succ n ih =>
    rw [paging_new_table, ih (b + 1) _ (by omega), write32_of_not _ _ _ (by omega)]

/-- The bytes of table `i` of a new directory: every page is mapped to itself. -/
def identityBytes (flags i o : Nat) : UInt8 := bytes32 ((i * 4194304 + o / 4 * 4096) ||| flags) (o % 4)

theorem identity_entry (i b : Nat) (hi : i < 1024) (hb : b < 1024) (offset : Int)
    (hoff : offset % 2 ^ 32 = i * 4194304) :
    u32 (offset + b * PAGING_PAGE_SIZE) = i * 4194304 + b * 4096 := by
  unfold u32 PAGING_PAGE_SIZE
  omega

theorem paging_new_table_bytes (entry i : Nat) (offset : Int) (flags n b : Nat) (mem : Nat → UInt8)
    (hi : i < 1024) (hoff : offset % 2 ^ 32 = i * 4194304) (hn : b + n ≤ 1024) (o : Nat) (hlo : 4 * b ≤ o)
    (hhi : o < 4 * (b + n)) :
    paging_new_table entry offset flags n b mem (entry + o) = identityBytes flags i o := by
  induction n generalizing b mem with
  | zero => omega
  | succ n ih =>
    rw [paging_new_table]
    by_cases ho : 4 * (b + 1) ≤ o
    · exact ih (b + 1) _ (by omega) ho (by omega)
    · rw [paging_new_table_of_not _ _ _ _ _ _ _ (by omega), identity_entry i b hi (by omega) offset hoff]
      unfold write32 identityBytes
      rw [if_pos (by omega), show o / 4 = b by omega, show entry + o - (entry + 4 * b) = o % 4 by omega]

theorem paging_new_loop_oom (dir flags n i : Nat) (offset : Int) (k : Kernel)
    (h : (paging_new_loop dir flags n i offset k).oom = false) : k.oom = false := by
  induction n generalizing i offset k with
  | zero => exact h
  | succ n ih =>
    have hnext := ih _ _ _ h
    exact (kzalloc_oom k _ hnext).1

theorem next_offset (i : Nat) (offset : Int) (hoff : offset % 2 ^ 32 = i * 4194304) (hi : i < 1023) :
    i32 (offset + PAGING_TOTAL_ENTRIES_PER_TABLE * PAGING_PAGE_SIZE) % 2 ^ 32 =
      ((i + 1 : Nat) : Int) * 4194304 := by
  unfold i32 PAGING_TOTAL_ENTRIES_PER_TABLE PAGING_PAGE_SIZE
  have hmod := Int.bmod_emod (x := offset + (1024 : Nat) * (4096 : Nat)) (m := 2 ^ 32)
  omega

theorem paging_new_loop_spec (hk : k.HeapOk) (table : Nat → Nat) (flags n i : Nat) (offset : Int)
    (hn : i + n ≤ 1024) (hoff : 0 < n → offset % 2 ^ 32 = i * 4194304)
    (h : Building k k' dir table (flags ||| 2) (identityBytes flags) i)
    (hoom : (paging_new_loop dir flags n i offset k').oom = false) :
    SameRecords k' (paging_new_loop dir flags n i offset k') ∧
      ∃ table', Building k (paging_new_loop dir flags n i offset k') dir table' (flags ||| 2)
        (identityBytes flags) (i + n) := by
  induction n generalizing i offset k' table with
  | zero => exact ⟨⟨rfl, rfl, rfl⟩, table, h⟩
  | succ n ih =>
    rw [paging_new_loop] at hoom ⊢
    have hoom1 := paging_new_loop_oom _ _ _ _ _ _ hoom
    obtain ⟨r, hall⟩ := kzalloc_spec (since_heapOk h.since hk) (4 * PAGING_TOTAL_ENTRIES_PER_TABLE)
      (by decide) (by decide) (kzalloc_oom _ _ hoom1).2
    have hpage := page_of_allocated _ r hall table_blocks
    have hsame := sameRecords_allocated _ r hall
    rw [← hall.addr] at hpage
    have hs := hall.since
    generalize k'.kzalloc (4 * PAGING_TOTAL_ENTRIES_PER_TABLE) = res at hs hsame hpage hoom ⊢
    have hb := building_add hk i (by omega) h res.1 hpage hs
      (paging_new_table res.1 offset flags PAGING_TOTAL_ENTRIES_PER_TABLE 0 res.2.mem) (fun x hx =>
        paging_new_table_of_not _ _ _ _ _ _ _ (by unfold PAGING_TOTAL_ENTRIES_PER_TABLE; omega))
      (fun o ho => paging_new_table_bytes _ i _ _ _ _ _ (by omega) (hoff (by omega)) (by decide) o
        (by omega) (by unfold PAGING_TOTAL_ENTRIES_PER_TABLE; omega))
    rw [Nat.or_assoc, show PAGING_IS_WRITEABLE = 2 from rfl] at hoom ⊢
    obtain ⟨hsame', table', hb'⟩ := ih _ (i + 1) _ (by omega)
      (fun hpos => next_offset i offset (hoff (by omega)) (by omega)) hb hoom
    refine ⟨sameRecords_trans hsame ⟨hsame'.tasks, hsame'.process, hsame'.processes⟩, table', ?_⟩
    rwa [show i + 1 + n = i + (n + 1) by omega] at hb'

theorem paging_new_4gb_eq (k k1 : Kernel) (flags : Nat) (res res' : Nat × Kernel)
    (h : k.kzalloc (4 * PAGING_TOTAL_ENTRIES_PER_TABLE) = res)
    (h1 : paging_new_loop res.1 flags PAGING_TOTAL_ENTRIES_PER_TABLE 0 0 res.2 = k1)
    (h' : k1.kzalloc 4 = res') :
    k.paging_new_4gb flags = (res'.1, { res'.2 with mem := write32 res'.2.mem res'.1 res.1 }) := by
  subst h h1 h'
  rfl

theorem or_two_lt (flags : Nat) (h : flags < 4096) : flags ||| 2 < 4096 :=
  Nat.or_lt_two_pow (n := 12) h (by decide)

theorem paging_new_4gb_spec (hk : k.HeapOk) (flags : Nat) (hf : flags < 4096)
    (hoom : (k.paging_new_4gb flags).2.oom = false) :
    k.oom = false ∧ SameRecords k (k.paging_new_4gb flags).2 ∧ ∃ dir table,
      NewDir k (k.paging_new_4gb flags).2 (k.paging_new_4gb flags).1 dir table (flags ||| 2)
        (identityBytes flags) := by
  obtain ⟨res, hres⟩ : ∃ res, k.kzalloc (4 * PAGING_TOTAL_ENTRIES_PER_TABLE) = res := ⟨_, rfl⟩
  obtain ⟨k1, hk1⟩ : ∃ k1, paging_new_loop res.1 flags PAGING_TOTAL_ENTRIES_PER_TABLE 0 0 res.2 = k1 :=
    ⟨_, rfl⟩
  obtain ⟨res', hres'⟩ : ∃ res', k1.kzalloc 4 = res' := ⟨_, rfl⟩
  rw [paging_new_4gb_eq k k1 flags res res' hres hk1 hres'] at hoom ⊢
  have hoom2 : (k1.kzalloc 4).2.oom = false := by rw [hres']; exact hoom
  have hoom1 := (kzalloc_oom _ _ hoom2).1
  have hoom0 : (k.kzalloc (4 * PAGING_TOTAL_ENTRIES_PER_TABLE)).2.oom = false := by
    rw [hres]
    rw [← hk1] at hoom1
    exact paging_new_loop_oom _ _ _ _ _ _ hoom1
  obtain ⟨hk0, hne⟩ := kzalloc_oom _ _ hoom0
  obtain ⟨r, hall⟩ := kzalloc_spec hk (4 * PAGING_TOTAL_ENTRIES_PER_TABLE) (by decide) (by decide) hne
  have hpage := page_of_allocated _ r hall table_blocks
  rw [← hall.addr, hres] at hpage
  rw [hres] at hall
  obtain ⟨hsame, table, hb⟩ := paging_new_loop_spec hk (fun _ => 0) flags PAGING_TOTAL_ENTRIES_PER_TABLE 0 0
    (by decide) (fun _ => rfl) (building_zero (or_two_lt flags hf) hall.since hpage)
    (by rw [hk1]; exact hoom1)
  rw [hk1] at hsame hb
  obtain ⟨r', hall'⟩ := kzalloc_spec (since_heapOk hb.since hk) 4 (by decide) (by decide)
    (kzalloc_oom _ _ hoom2).2
  have hpage' := page_of_allocated _ r' hall' word_blocks
  rw [← hall'.addr, hres'] at hpage'
  rw [hres'] at hall'
  have hk1' := since_heapOk hb.since hk
  obtain ⟨-, hdlt⟩ := usedAt_aligned hk1' _ hb.dir_page.2
  have hs := since_write_page hk1' hall'.since res'.1 hpage' (write32 res'.2.mem res'.1 res.1)
    fun x hx => write32_of_not _ _ _ (by omega)
  have hb' := building_since 1024 hb hs (Nat.le_refl _)
  have hsame' := sameRecords_trans (sameRecords_allocated _ r hall)
    (sameRecords_trans hsame (sameRecords_allocated _ r' hall'))
  refine ⟨hk0, ⟨hsame'.tasks, hsame'.process, hsame'.processes⟩, res.1, table, hb'.since, ?_,
    page_earlier _ hb.since hpage', hb'.dir_page, hb'.table_page, hb'.bytes⟩
  exact ⟨hb'.flags, hpage'.2, hb'.dir_page.2, fun i hi => (hb'.table_page i hi).2,
    ⟨page_ne hall'.since _ _ hpage' hb.dir_page.2,
      fun i hi => page_ne hall'.since _ _ hpage' (hb.table_page i hi).2⟩,
    hb'.dir_ne, hb'.table_inj, read32_write32_same _ _ hdlt, hb'.entry⟩

/-! ## `paging_free_4gb` -/

theorem paging_free_loop_spec (hk : k.HeapOk) (chunk n i : Nat) (hn : i + n ≤ 1024) (hs : k.Since k')
    (htable : ∀ j < 1024, Loose k k' (table_of (read32 k'.mem (read32 k'.mem chunk + 4 * j)))) :
    k.Since (paging_free_loop chunk n i k') ∧ (paging_free_loop chunk n i k').mem = k'.mem ∧
      (paging_free_loop chunk n i k').oom = k'.oom ∧
      SameRecords k' (paging_free_loop chunk n i k') ∧
      ∀ b, Loose k k' b → Loose k (paging_free_loop chunk n i k') b := by
  induction n generalizing i k' with
  | zero => exact ⟨hs, rfl, rfl, ⟨rfl, rfl, rfl⟩, fun _ h => h⟩
  | succ n ih =>
    obtain ⟨hs1, hmem, hoom, hloose⟩ := kfree_loose hk hs _ (htable i (by omega))
    rw [paging_free_loop]
    obtain ⟨h1, h2, h3, h4, h5⟩ := ih (i + 1) (by omega) hs1 (fun j hj => by
      rw [hmem]
      exact hloose _ (htable j hj))
    exact ⟨h1, h2.trans hmem, h3.trans hoom, ⟨h4.tasks, h4.process, h4.processes⟩,
      fun b hb => h5 b (hloose b hb)⟩

theorem paging_free_4gb_eq (k k1 : Kernel) (chunk : Nat) (h : paging_free_loop chunk 1024 0 k = k1) :
    k.paging_free_4gb chunk = (k1.kfree (read32 k1.mem chunk)).kfree chunk := by
  subst h
  rfl

theorem paging_free_4gb_spec (hk : k.HeapOk) (h : NewDir k k' chunk dir table f content) :
    k.Since (k'.paging_free_4gb chunk) ∧ (k'.paging_free_4gb chunk).oom = k'.oom ∧
      SameRecords k' (k'.paging_free_4gb chunk) := by
  have hk' := since_heapOk h.since hk
  obtain ⟨hs1, hmem, hoom, hsame, hloose⟩ := paging_free_loop_spec hk chunk 1024 0 (by omega) h.since
    (fun j hj => by
      rw [h.pageDir.chunk_eq, pageDir_table hk' h.pageDir j hj]
      exact (h.table_page j hj).1)
  obtain ⟨k1, hk1⟩ : ∃ k1, paging_free_loop chunk 1024 0 k' = k1 := ⟨_, rfl⟩
  rw [paging_free_4gb_eq k' k1 chunk hk1]
  rw [hk1] at hs1 hmem hoom hsame hloose
  rw [hmem, h.pageDir.chunk_eq]
  obtain ⟨hs2, -, hoom2, hloose2⟩ := kfree_loose hk hs1 dir (hloose _ h.dir_page.1)
  obtain ⟨hs3, -, hoom3, -⟩ := kfree_loose hk hs2 chunk (hloose2 _ (hloose _ h.chunk_page.1))
  exact ⟨hs3, hoom3.trans (hoom2.trans hoom), hsame.tasks, hsame.process, hsame.processes⟩

/-! ## `paging_copy_4gb` -/

variable {src sdir : Nat} {stable : Nat → Nat}

theorem paging_copy_loop_oom (src dir n i : Nat) (k : Kernel)
    (h : (paging_copy_loop src dir n i k).2.oom = false) : k.oom = false := by
  induction n generalizing i k with
  | zero => exact h
  | succ n ih =>
    rw [paging_copy_loop] at h
    dsimp only at h
    split at h
    · exact (kzalloc_oom k _ h).1
    · have hnext := ih _ _ h
      exact (kzalloc_oom k _ hnext).1

theorem paging_copy_loop_spec (hk : k.HeapOk) (hsrc : PageDir k src sdir stable f) (table : Nat → Nat)
    (n i : Nat) (hn : i + n ≤ 1024)
    (h : Building k k' dir table f (fun i o => k.mem (stable i + o)) i)
    (hoom : (paging_copy_loop src dir n i k').2.oom = false) :
    (paging_copy_loop src dir n i k').1 = true ∧
      SameRecords k' (paging_copy_loop src dir n i k').2 ∧
      ∃ table', Building k (paging_copy_loop src dir n i k').2 dir table' f
        (fun i o => k.mem (stable i + o)) (i + n) := by
  induction n generalizing i k' table with
  | zero => exact ⟨rfl, ⟨rfl, rfl, rfl⟩, table, h⟩
  | succ n ih =>
    have hsrc' := pageDir_since hsrc h.since
    have hk' := since_heapOk h.since hk
    have hstable := hsrc'.table_used i (by omega)
    obtain ⟨hsl, hslt⟩ := usedAt_aligned hk' _ hstable
    have hentry : read32 k'.mem (read32 k'.mem src + 4 * i) = stable i ||| f := by
      rw [hsrc'.chunk_eq, hsrc'.entry i (by omega)]
    rw [paging_copy_loop] at hoom ⊢
    simp only [hentry, flags_of_or (stable i) f hsl h.flags, table_of_or (stable i) f hsl hslt h.flags,
      show 4 * PAGING_TOTAL_ENTRIES_PER_TABLE = 4096 from rfl] at hoom ⊢
    have hne : (k'.kzalloc 4096).1 ≠ 0 := by
      intro h0
      rw [if_pos h0] at hoom
      exact (kzalloc_oom k' 4096 hoom).2 h0
    rw [if_neg hne] at hoom ⊢
    obtain ⟨r, hall⟩ := kzalloc_spec hk' 4096 (by decide) (by decide) hne
    have hpage := page_of_allocated _ r hall table_blocks
    have hsame := sameRecords_allocated _ r hall
    rw [← hall.addr] at hpage
    have hs := hall.since
    generalize k'.kzalloc 4096 = res at hs hsame hpage hoom ⊢
    have hsne := page_ne hs _ _ hpage hstable
    have hal := (usedAt_aligned (since_heapOk hs hk') _ hpage.2).1
    have hb := building_add hk i (by omega) h res.1 hpage hs (memcpy res.2.mem res.1 (stable i) 4096)
      (fun x hx => memcpy_of_not _ _ _ _ hx) (fun o ho => by
        rw [memcpy_copies _ _ _ (by omega) o ho, hs.mem _ hstable o ho,
          h.since.mem _ (hsrc.table_used i (by omega)) o ho])
    obtain ⟨h1, h2, table', h3⟩ := ih _ (i + 1) (by omega) hb hoom
    refine ⟨h1, sameRecords_trans hsame ⟨h2.tasks, h2.process, h2.processes⟩, table', ?_⟩
    rwa [show i + 1 + n = i + (n + 1) by omega] at h3

theorem paging_copy_4gb_eq (k : Kernel) (src : Nat) (res res' : Nat × Kernel) (res'' : Bool × Kernel)
    (h : k.kzalloc 4 = res) (h' : res.2.kzalloc (4 * PAGING_TOTAL_ENTRIES_PER_TABLE) = res')
    (h'' : paging_copy_loop src res'.1 PAGING_TOTAL_ENTRIES_PER_TABLE 0
      { res'.2 with mem := write32 res'.2.mem res.1 res'.1 } = res'') :
    k.paging_copy_4gb src =
      if res.1 = 0 then (0, res.2) else if res'.1 = 0 then (0, res'.2.kfree res.1)
      else if res''.1 then (res.1, res''.2) else (0, res''.2) := by
  subst h h' h''
  rfl

theorem paging_copy_4gb_spec (hk : k.HeapOk) (hsrc : PageDir k src sdir stable f)
    (hoom : (k.paging_copy_4gb src).2.oom = false) :
    k.oom = false ∧ SameRecords k (k.paging_copy_4gb src).2 ∧ ∃ dir table,
      NewDir k (k.paging_copy_4gb src).2 (k.paging_copy_4gb src).1 dir table f
        fun i o => k.mem (stable i + o) := by
  obtain ⟨res, hres⟩ : ∃ res, k.kzalloc 4 = res := ⟨_, rfl⟩
  obtain ⟨res', hres'⟩ : ∃ res', res.2.kzalloc (4 * PAGING_TOTAL_ENTRIES_PER_TABLE) = res' := ⟨_, rfl⟩
  obtain ⟨res'', hres''⟩ : ∃ res'', paging_copy_loop src res'.1 PAGING_TOTAL_ENTRIES_PER_TABLE 0
    { res'.2 with mem := write32 res'.2.mem res.1 res'.1 } = res'' := ⟨_, rfl⟩
  rw [paging_copy_4gb_eq k src res res' res'' hres hres' hres''] at hoom ⊢
  -- No allocation has failed, so no branch for a failure is taken.
  have hne : res.1 ≠ 0 := by
    intro h0
    rw [if_pos h0] at hoom
    rw [← hres] at hoom h0
    exact (kzalloc_oom k 4 hoom).2 h0
  rw [if_neg hne] at hoom ⊢
  have hne' : res'.1 ≠ 0 := by
    intro h0
    rw [if_pos h0] at hoom
    rw [← hres'] at hoom h0
    exact (kzalloc_oom res.2 _ hoom).2 h0
  rw [if_neg hne'] at hoom ⊢
  have hoom2 : res''.2.oom = false := by
    split at hoom
    · exact hoom
    · exact hoom
  have hoom1 : (res.2.kzalloc (4 * PAGING_TOTAL_ENTRIES_PER_TABLE)).2.oom = false := by
    rw [hres']
    rw [← hres''] at hoom2
    have hstart := paging_copy_loop_oom _ _ _ _ _ hoom2
    exact hstart
  have hoom0 : (k.kzalloc 4).2.oom = false := by
    rw [hres]
    exact (kzalloc_oom _ _ hoom1).1
  obtain ⟨r, hall⟩ := kzalloc_spec hk 4 (by decide) (by decide) (by rw [hres]; exact hne)
  have hpage := page_of_allocated _ r hall word_blocks
  rw [← hall.addr, hres] at hpage
  rw [hres] at hall
  have hk1 := since_heapOk hall.since hk
  obtain ⟨r', hall'⟩ := kzalloc_spec hk1 (4 * PAGING_TOTAL_ENTRIES_PER_TABLE) (by decide) (by decide)
    (by rw [hres']; exact hne')
  have hpage' := page_of_allocated _ r' hall' table_blocks
  rw [← hall'.addr, hres'] at hpage'
  rw [hres'] at hall'
  have hdir := page_ne hall'.since _ _ hpage' hpage.2
  obtain ⟨-, hdlt⟩ := usedAt_aligned (since_heapOk hall'.since hk1) _ hpage'.2
  -- The loop is seen from the state with the chunk filled in, so that it keeps the chunk.
  obtain ⟨k1, hk1eq⟩ : ∃ k1, { res.2 with mem := write32 res.2.mem res.1 res'.1 } = k1 := ⟨_, rfl⟩
  have hs1 : k.Since k1 := by
    rw [← hk1eq]
    exact since_write_page hk hall.since res.1 hpage _ fun x hx => write32_of_not _ _ _ (by omega)
  have hs2 : k1.Since { res'.2 with mem := write32 res'.2.mem res.1 res'.1 } := by
    rw [← hk1eq]
    refine ⟨hall'.since.saddr, hall'.since.total, hall'.since.entries, fun a ha o ho => ?_⟩
    have hold : res'.2.mem (a + o) = res.2.mem (a + o) := hall'.since.mem a ha o ho
    simp only [write32, hold]
  have hused1 : k1.UsedAt res.1 := by
    rw [← hk1eq]
    exact hpage.2
  have hpage1 : Page k1 { res'.2 with mem := write32 res'.2.mem res.1 res'.1 } res'.1 := by
    rw [← hk1eq]
    exact hpage'
  have hchunk1 : read32 k1.mem res.1 = res'.1 := by
    rw [← hk1eq]
    exact read32_write32_same _ _ hdlt
  obtain ⟨hdone, hsame, table, hc⟩ := paging_copy_loop_spec (since_heapOk hs1 hk)
    (pageDir_since hsrc hs1) (fun _ => 0) PAGING_TOTAL_ENTRIES_PER_TABLE 0 (by decide)
    (building_zero hsrc.flags hs2 hpage1) (by rw [hres'']; exact hoom2)
  rw [hres''] at hdone hsame hc
  rw [if_pos hdone]
  have hsame' := sameRecords_trans (sameRecords_allocated _ r hall)
    (sameRecords_trans (sameRecords_allocated _ r' hall') ⟨hsame.tasks, hsame.process, hsame.processes⟩)
  refine ⟨(kzalloc_oom _ _ hoom0).1, hsame', res'.1, table, since_trans hs1 hc.since,
    ⟨hc.flags, since_usedAt hc.since _ hused1, hc.dir_page.2, fun i hi => (hc.table_page i hi).2,
      ⟨hdir.symm, fun i hi => ?_⟩, hc.dir_ne, hc.table_inj, ?_, hc.entry⟩, ?_,
    page_earlier _ hs1 hc.dir_page, fun i hi => page_earlier _ hs1 (hc.table_page i hi),
    fun i hi o ho => ?_⟩
  · exact (page_ne hc.since _ _ (hc.table_page i hi) hused1).symm
  · have hread := since_read32 hc.since res.1 hused1 0 (by omega)
    rw [Nat.add_zero] at hread
    rw [hread, hchunk1]
  · have hpage2 : Page k k1 res.1 := by
      rw [← hk1eq]
      exact hpage
    exact page_since _ hpage2 hc.since
  · rw [hc.bytes i hi o ho, hs1.mem _ (hsrc.table_used i hi) o ho]

/-! ## `paging_get` -/

theorem paging_get_indexes_spec (virt : Nat) (hv : virt % 4096 = 0) :
    paging_get_indexes virt = (0, virt / 4194304, virt % 4194304 / 4096) := by
  unfold paging_get_indexes paging_is_aligned PAGING_PAGE_SIZE
  simp only [hv, decide_true, Bool.not_true, Bool.false_eq_true, if_false]
  rfl

theorem paging_get_eq (hk : k.HeapOk) (h : PageDir k chunk dir table f) (virt : Nat)
    (hv : virt % 4096 = 0) (hlt : virt < 2 ^ 32) :
    paging_get k.mem dir virt = read32 k.mem (table (virt / 4194304) + 4 * (virt % 4194304 / 4096)) := by
  unfold paging_get
  rw [paging_get_indexes_spec virt hv]
  dsimp only
  rw [pageDir_table hk h _ (by omega)]

theorem paging_get_since (hk : k.HeapOk) (h : PageDir k chunk dir table f) (hs : k.Since k')
    (virt : Nat) (hv : virt % 4096 = 0) (hlt : virt < 2 ^ 32) :
    paging_get k'.mem dir virt = paging_get k.mem dir virt := by
  rw [paging_get_eq hk h virt hv hlt,
    paging_get_eq (since_heapOk hs hk) (pageDir_since h hs) virt hv hlt]
  exact since_read32 hs _ (h.table_used _ (by omega)) _ (by omega)

theorem paging_get_identity (hk : k.HeapOk) (flags : Nat)
    (h : NewDir k k' chunk dir table f (identityBytes flags)) (hf : flags < 4096) (virt : Nat)
    (hv : virt % 4096 = 0) (hlt : virt < 2 ^ 32) : paging_get k'.mem dir virt = virt ||| flags := by
  rw [paging_get_eq (since_heapOk h.since hk) h.pageDir virt hv hlt, ← le32_bytes32 _ (or_lt virt flags hv hf hlt)]
  have hbyte : ∀ o < 4, k'.mem (table (virt / 4194304) + 4 * (virt % 4194304 / 4096) + o) =
      bytes32 (virt ||| flags) o := fun o ho => by
    rw [Nat.add_assoc, h.bytes _ (by omega) _ (by omega)]
    unfold identityBytes
    rw [show (4 * (virt % 4194304 / 4096) + o) % 4 = o by omega,
      show virt / 4194304 * 4194304 + (4 * (virt % 4194304 / 4096) + o) / 4 * 4096 = virt by omega]
  unfold read32 le32
  dsimp only
  rw [hbyte 0 (by omega), hbyte 1 (by omega), hbyte 2 (by omega), hbyte 3 (by omega)]

theorem newDir_since (h : NewDir k k' chunk dir table f content) (hs : k'.Since k'') :
    NewDir k k'' chunk dir table f content := by
  refine ⟨since_trans h.since hs, pageDir_since h.pageDir hs, page_since _ h.chunk_page hs,
    page_since _ h.dir_page hs, fun i hi => page_since _ (h.table_page i hi) hs, fun i hi o ho => ?_⟩
  rw [hs.mem _ (h.table_page i hi).2 o ho, h.bytes i hi o ho]

theorem newDir_earlier (hs : k.Since k') (h : NewDir k' k'' chunk dir table f content) :
    NewDir k k'' chunk dir table f content :=
  ⟨since_trans hs h.since, h.pageDir, page_earlier _ hs h.chunk_page, page_earlier _ hs h.dir_page,
    fun i hi => page_earlier _ hs (h.table_page i hi), h.bytes⟩

end Memory

end PeachOS
