import PeachOS.Process.Map

/-!
# New tasks and loaded processes

`task_new` gives a task a directory of its own, in new pages. A process that `process_load_for_slot` has
loaded is mapped.
-/

open PeachOS.Lib PeachOS.Blocks PeachOS.Kernel

namespace PeachOS.Memory

variable {k k' k'' : Kernel} {chunk dir : Nat} {table : Nat → Nat}

theorem usedAt_ne_zero (hk : k.HeapOk) (a : Nat) (ha : k.UsedAt a) : a ≠ 0 := by
  obtain ⟨i, rfl, -⟩ := ha
  have := hk.pos
  unfold blockAddr
  omega

theorem usedAt_allocated (size r : Nat) (h : Allocated k size k' r) : k'.UsedAt (k.kzalloc size).1 := by
  rw [h.addr, ← since_addr h.since r]
  exact ⟨r, rfl, h.used⟩

theorem allocated_ne (size r : Nat) (h1 : 1 ≤ size) (h2 : size ≤ 2 ^ 32 - 4096)
    (h : Allocated k size k' r) (b : Nat) (hb : k.UsedAt b) : b ≠ (k.kzalloc size).1 := by
  obtain ⟨-, hcover⟩ := heap_total_blocks_of_le size h2
  obtain ⟨j, rfl, hj⟩ := hb
  rw [h.addr]
  intro heq
  rw [blockAddr_inj k j r heq] at hj
  refine hj.2 (h.free r (Nat.le_refl r) ?_ h.lt)
  unfold PEACHOS_HEAP_BLOCK_SIZE at hcover
  omega

theorem since_fill (size r : Nat) (h2 : size ≤ 2 ^ 32 - 4096)
    (h : Allocated k size k' r) (mem : Nat → UInt8)
    (hmem : ∀ x, ¬ ((k.kzalloc size).1 ≤ x ∧ x < (k.kzalloc size).1 + size) → mem x = k'.mem x) :
    k.Since { k' with mem := mem } := by
  obtain ⟨-, hcover⟩ := heap_total_blocks_of_le size h2
  rw [h.addr] at hmem
  refine since_write h.since mem ?_
  rintro a ⟨i, rfl, hi⟩ o ho
  refine hmem _ ?_
  have hout : ¬ (r ≤ i ∧ i < r + heap_total_blocks size) := fun hin =>
    hi.2 (h.free i hin.1 hin.2 hi.1)
  unfold blockAddr PEACHOS_HEAP_BLOCK_SIZE at *
  omega

/-! ## `task_new` -/

theorem paging_free_loop_oom (chunk n i : Nat) (k : Kernel) :
    (paging_free_loop chunk n i k).oom = k.oom := by
  induction n generalizing i k with
  | zero => rfl
  | succ n ih =>
    rw [paging_free_loop, ih]
    rfl

theorem paging_free_4gb_oom (k : Kernel) (chunk : Nat) : (k.paging_free_4gb chunk).oom = k.oom := by
  obtain ⟨k1, hk1⟩ : ∃ k1, paging_free_loop chunk 1024 0 k = k1 := ⟨_, rfl⟩
  have hloop := paging_free_loop_oom chunk 1024 0 k
  rw [hk1] at hloop
  rw [paging_free_4gb_eq k k1 chunk hk1]
  exact hloop

theorem task_free_oom (k : Kernel) (task : Nat) : (k.task_free task).oom = k.oom := by
  obtain ⟨chunk, hchunk⟩ : ∃ chunk, (k.tasks.task task).page_directory = chunk := ⟨_, rfl⟩
  obtain ⟨k1, hk1⟩ : ∃ k1, k.paging_free_4gb chunk = k1 := ⟨_, rfl⟩
  have hoom := paging_free_4gb_oom k chunk
  unfold task_free
  rw [hk1] at hoom
  rw [hchunk, hk1]
  exact hoom

theorem task_insert_page_directory (s : TaskList) (task x : Nat) :
    ((s.task_insert task).task x).page_directory = (s.task x).page_directory := by
  unfold TaskList.task_insert TaskList.set
  split
  · rfl
  · dsimp only
    split
    · rename_i hx
      rw [hx]
      dsimp only
      split
      · rename_i ht
        rw [ht]
      · rfl
    · split
      · rename_i hx
        rw [hx]
      · rfl

/-- A new task: its record, and a directory of its own. `k1` is the state in which the directory is built. -/
structure NewTask (k k' : Kernel) (task : Nat) (k1 : Kernel) (chunk dir : Nat) (table : Nat → Nat) :
    Prop where
  since : k.Since k1
  newDir : NewDir k1 k' chunk dir table 7 (identityBytes 5)
  used : k1.UsedAt task
  fresh : ∀ b, k.UsedAt b → b ≠ task
  own : (k'.tasks.task task).page_directory = chunk
  other : ∀ x, x ≠ task → (k'.tasks.task x).page_directory = (k.tasks.task x).page_directory
  process : k'.process = k.process
  processes : k'.processes = k.processes

theorem task_new_eq (k : Kernel) (process : Nat) (res res' : Nat × Kernel)
    (h : k.kzalloc sizeof_task = res)
    (h' : res.2.paging_new_4gb (PAGING_IS_PRESENT ||| PAGING_ACCESS_FROM_ALL) = res') : k.task_new process =
      if res.1 = 0 then (u32 (-ENOMEM), res.2.task_free res.1) else
      let init := task_init process res'.1
      let k := { res'.2 with tasks := res'.2.tasks.set res.1 init.2 }
      if init.1 < 0 then (u32 init.1, k.task_free res.1) else
      (res.1, { k with tasks := k.tasks.task_insert res.1 }) := by
  subst h h'
  rfl

theorem task_new_spec (hk : k.HeapOk) (process : Nat) (hoom : (k.task_new process).2.oom = false) :
    k.oom = false ∧ (k.task_new process).1 ≠ 0 ∧
      ∃ k1 chunk dir table, NewTask k (k.task_new process).2 (k.task_new process).1 k1 chunk dir table := by
  obtain ⟨res, hres⟩ : ∃ res, k.kzalloc sizeof_task = res := ⟨_, rfl⟩
  obtain ⟨res', hres'⟩ : ∃ res',
    res.2.paging_new_4gb (PAGING_IS_PRESENT ||| PAGING_ACCESS_FROM_ALL) = res' := ⟨_, rfl⟩
  rw [task_new_eq k process res res' hres hres'] at hoom ⊢
  rw [show PAGING_IS_PRESENT ||| PAGING_ACCESS_FROM_ALL = 5 from rfl] at hres'
  have hne : res.1 ≠ 0 := by
    intro h0
    rw [if_pos h0, task_free_oom] at hoom
    rw [← hres] at hoom h0
    exact (kzalloc_oom k _ hoom).2 h0
  rw [if_neg hne] at hoom ⊢
  dsimp only at hoom ⊢
  have hoom' : (res.2.paging_new_4gb 5).2.oom = false := by
    rw [hres']
    split at hoom
    · rw [task_free_oom] at hoom
      exact hoom
    · exact hoom
  obtain ⟨r, hall⟩ := kzalloc_spec hk sizeof_task (by decide) (by decide) (by rw [hres]; exact hne)
  have hused := usedAt_allocated _ r hall
  have hfresh := allocated_ne _ r (by decide) (by decide) hall
  rw [hres] at hall hused hfresh
  have hk1 := since_heapOk hall.since hk
  obtain ⟨hoom1, hsame, dir, table, hdir⟩ := paging_new_4gb_spec hk1 5 (by omega) hoom'
  rw [hres'] at hsame hdir
  have hchunk := usedAt_ne_zero (since_heapOk hdir.since hk1) _ hdir.pageDir.chunk_used
  have hinit : (task_init process res'.1).1 = 0 ∧ (task_init process res'.1).2.page_directory = res'.1 := by
    unfold task_init
    rw [if_neg hchunk]
    exact ⟨rfl, rfl⟩
  rw [if_neg (by rw [hinit.1]; omega)]
  have hk0 : (k.kzalloc sizeof_task).2.oom = false := by
    rw [hres]
    exact hoom1
  refine ⟨(kzalloc_oom k _ hk0).1, hne, res.2, res'.1, dir, table, hall.since, ?_, hused, hfresh, ?_, fun x hx => ?_,
    hsame.process.trans hall.process, hsame.processes.trans hall.processes⟩
  · exact newDir_since hdir (since_same rfl rfl)
  · rw [task_insert_page_directory]
    unfold TaskList.set
    dsimp only
    rw [if_pos rfl, hinit.2]
  · rw [task_insert_page_directory]
    unfold TaskList.set
    dsimp only
    rw [if_neg hx, hsame.tasks, hall.tasks]

/-! ## `process_load_for_slot` -/

theorem process_load_task_eq (k : Kernel) (process : Nat) (process_slot : Int) (res : Nat × Kernel)
    (h : k.task_new process = res) :
    k.process_load_task process process_slot =
      if res.1 = 0 then (0, 0, res.2) else
      let k := res.2.setProcess process { res.2.process process with task := res.1 }
      let res := k.process_map_memory process
      if res.1 < 0 then (res.1, 0, res.2.process_load_out res.1 process) else
      let k := res.2
      (res.1, process, { k with
        processes := fun i => if i = process_slot.toNat then process else k.processes i }) := by
  subst h
  rfl

/-- The results of the two calls to `paging_map_to` are dropped. -/
theorem process_map_memory_result (k : Kernel) (process : Nat) :
    ∃ mem, k.process_map_memory process = (0, { k with mem := mem }) := by
  unfold process_map_memory
  rw [if_neg (show ¬ (k.process_map_binary process).1 < 0 from Int.lt_irrefl 0)]
  exact ⟨_, rfl⟩

/-- A process `k3` that has got its task, with a directory that was built in `k1`. -/
structure TaskReady (k k3 : Kernel) (process task : Nat) (k1 : Kernel) (chunk dir : Nat) (table : Nat → Nat) :
    Prop where
  since : k.Since k1
  newDir : NewDir k1 k3 chunk dir table 7 (identityBytes 5)
  used : k1.UsedAt task
  record : k3.process process = { k.process process with task := task }
  directory : (k3.tasks.task (k3.process process).task).page_directory = chunk
  processes : k3.processes = k.processes

theorem process_load_task_ready (hk : k.HeapOk) (process : Nat) (process_slot : Int)
    (hoom : (k.process_load_task process process_slot).2.2.oom = false) :
    k.oom = false ∧ ∃ k3 task k1 chunk dir table, TaskReady k k3 process task k1 chunk dir table ∧
      k.process_load_task process process_slot = (0, process, { (k3.process_map_memory process).2 with
        processes := fun i => if i = process_slot.toNat then process else k.processes i }) := by
  obtain ⟨res, hres⟩ : ∃ res, k.task_new process = res := ⟨_, rfl⟩
  obtain ⟨k3, hk3⟩ : ∃ k3, res.2.setProcess process { res.2.process process with task := res.1 } = k3 := ⟨_, rfl⟩
  obtain ⟨mem, hmap⟩ := process_map_memory_result k3 process
  have hoom3 : k3.oom = res.2.oom := by
    rw [← hk3]
    rfl
  rw [process_load_task_eq k process process_slot res hres] at hoom ⊢
  dsimp only at hoom ⊢
  rw [hk3, hmap] at hoom ⊢
  dsimp only at hoom ⊢
  rw [if_neg (Int.lt_irrefl 0)] at hoom ⊢
  have hoom' : (k.task_new process).2.oom = false := by
    rw [hres]
    split at hoom
    · exact hoom
    · rw [← hoom3]
      exact hoom
  obtain ⟨hk0, hne, k1, chunk, dir, table, ht⟩ := task_new_spec hk process hoom'
  rw [hres] at hne ht
  have hs3 : res.2.Since k3 := by
    rw [← hk3]
    exact since_same rfl rfl
  have hp3 : k3.process process = { k.process process with task := res.1 } := by
    rw [← hk3, ← ht.process]
    exact if_pos rfl
  have hps3 : k3.processes = k.processes := by
    rw [← hk3]
    exact ht.processes
  have ht3 : (k3.tasks.task (k3.process process).task).page_directory = chunk := by
    rw [hp3, ← ht.own, ← hk3]
    rfl
  refine ⟨hk0, k3, res.1, k1, chunk, dir, table, ⟨ht.since, newDir_since ht.newDir hs3, ht.used, hp3, ht3, hps3⟩, ?_⟩
  rw [if_neg hne, hps3, hmap]

/-- What the directory of a loaded process says. -/
def LoadedMap (p : Process) (v : Nat) : Nat :=
  if 0x3FB000 ≤ v ∧ v < 0x3FF000 then (p.stack + (v - 0x3FB000)) ||| 7
  else if 0x400000 ≤ v ∧ v < 0x400000 + p.size then (p.ptr + (v - 0x400000)) ||| 7
  else v ||| 5

theorem process_load_task_spec (hk : k.HeapOk) (process : Nat) (process_slot : Int)
    (hused : k.UsedAt process) (hptr : k.UsedAt (k.process process).ptr)
    (hstack : k.UsedAt (k.process process).stack) (hpos : 0 < (k.process process).size)
    (hsize : (k.process process).ptr + (k.process process).size + 4096 ≤ 2 ^ 32)
    (hvirt : 0x400000 + (k.process process).size + 4096 ≤ 2 ^ 32)
    (hslt : (k.process process).stack + 0x5000 ≤ 2 ^ 32)
    (hoom : (k.process_load_task process process_slot).2.2.oom = false) :
    k.oom = false ∧ ∃ k' dir table, k.process_load_task process process_slot = (0, process, k') ∧
      Mapped k' process dir table ∧
      k'.process process = { k.process process with task := (k'.process process).task } ∧
      (∀ i, k'.processes i = if i = process_slot.toNat then process else k.processes i) ∧
      (∀ v, v % 4096 = 0 → v < 2 ^ 32 → paging_get k'.mem dir v = LoadedMap (k'.process process) v) ∧
      (∀ a, k.Taken a → k'.Taken a ∧ a ≠ (k'.tasks.task (k'.process process).task).page_directory ∧ a ≠ dir ∧
        ∀ i < 1024, a ≠ table i) ∧ k'.heap.saddr = k.heap.saddr := by
  obtain ⟨hk0, k3, task, k1, chunk, dir, table, ht, htask⟩ := process_load_task_ready hk process process_slot hoom
  have hp3 := ht.record
  have hdir := ht.newDir
  have hk1 := since_heapOk ht.since hk
  have hs : k.Since k3 := since_trans ht.since hdir.since
  have hkk3 := since_heapOk hs hk
  have hal := (usedAt_aligned hk _ hptr).1
  have hsal := (usedAt_aligned hk _ hstack).1
  obtain ⟨mem, heq, hpd, -, hget⟩ := process_map_memory_spec (f := 7) hkk3 process
    (by rw [ht.directory]; exact hdir.pageDir) (by rw [hp3]; exact hal) (by rw [hp3]; exact hsal)
    (by rw [hp3]; exact hsize) (by rw [hp3]; exact hvirt) (by rw [hp3]; exact hslt)
  rw [heq] at htask
  refine ⟨hk0, _, dir, table, htask, ?_, by rw [hp3], fun i => rfl, fun v hv hlt => ?_, fun a ha => ?_, hs.saddr⟩
  · have hused' : ∀ a, k.UsedAt a → k3.UsedAt a := fun a ha => since_usedAt hs a ha
    have hne' : ∀ a, Page k1 k3 a → (k.process process).ptr ≠ a := fun a ha =>
      page_ne hdir.since a _ ha (since_usedAt ht.since _ hptr)
    rw [hp3] at hget
    constructor
    case heap => exact ⟨hkk3.aligned, hkk3.pos, hkk3.fits, hkk3.small⟩
    case size_pos => rw [hp3]; exact hpos
    case fits => rw [hp3]; exact Nat.le_trans (Nat.le_add_right _ _) hsize
    case process_used => exact hused' _ hused
    case task_used => rw [hp3]; exact since_usedAt hdir.since _ ht.used
    case ptr_used => rw [hp3]; exact hused' _ hptr
    case stack_used => rw [hp3]; exact hused' _ hstack
    case pageDir => exact pageDir_since hpd (since_same rfl rfl)
    case ptr_ne =>
      rw [ht.directory, hp3]
      exact ⟨hne' _ hdir.chunk_page, hne' _ hdir.dir_page, fun i hi => hne' _ (hdir.table_page i hi)⟩
    case program =>
      intro i hi hlt
      rw [hp3] at hi ⊢
      rw [hget _ (by omega) hlt, if_neg (by omega), if_pos (by omega), Nat.add_sub_cancel_left]
    case stack =>
      intro i hi
      rw [hp3, hget _ (by omega) (by omega), if_pos (by omega), Nat.add_sub_cancel_left]
  · rw [hget v hv hlt, paging_get_identity hk1 5 hdir (by omega) v hv hlt]
    rfl
  · -- The directory is in pages that are new since then.
    have hne' : ∀ b, Page k1 k3 b → a ≠ b := fun b hb => taken_ne hdir.since a b (since_taken ht.since a ha) hb
    refine ⟨since_taken hs a ha, ?_, hne' _ hdir.dir_page, fun i hi => hne' _ (hdir.table_page i hi)⟩
    rw [ht.directory]
    exact hne' _ hdir.chunk_page

/-- The file is there, and all of it can be read. -/
def Readable (file : ProgramFile) : Prop := file.opened = true ∧ file.stat = 0 ∧ file.read = 1

/-- What `process_load_data` does: it fails, or the program is in memory, or a positive result of `fstat` is taken for
success. -/
theorem process_load_data_cases (hk : k.HeapOk) (file : ProgramFile) (process : Nat) :
    ((k.process_load_data file process).1 < 0 ∧ Grows k (k.process_load_data file process).2 ∧
      ¬ (Readable file ∧ (k.kzalloc file.filesize).1 ≠ 0) ∧ ¬ (file.opened = true ∧ 0 < file.stat)) ∨
    (Readable file ∧ (k.kzalloc file.filesize).1 ≠ 0 ∧ k.process_load_data file process =
      (0, { (k.kzalloc file.filesize).2 with
          mem := put (k.kzalloc file.filesize).2.mem (k.kzalloc file.filesize).1 file.filesize file.data }.setProcess
        process { k.process process with ptr := (k.kzalloc file.filesize).1, size := file.filesize })) ∨
    (file.opened = true ∧ 0 < file.stat ∧ k.process_load_data file process = (file.stat, k)) := by
  have hg := grows_kzalloc hk file.filesize
  have hsame : Grows k k := ⟨rfl, rfl, fun _ _ => rfl, rfl, rfl, rfl⟩
  unfold process_load_data process_load_binary Readable
  dsimp only
  split
  · rename_i hopen
    have hno : ¬ file.opened = true := by simpa using hopen
    exact Or.inl ⟨show - EIO < (0 : Int) by decide, hsame, fun h => hno h.1.1, fun h => hno h.1⟩
  rename_i hopen
  have hopen' : file.opened = true := by simpa using hopen
  split
  · rename_i hst
    by_cases hpos : 0 < file.stat
    · exact Or.inr (Or.inr ⟨hopen', hpos, rfl⟩)
    · exact Or.inl ⟨by dsimp only; omega, hsame, fun h => hst h.1.2.1, fun h => hpos h.2⟩
  rename_i hst
  have hst' : file.stat = 0 := not_not.mp hst
  split
  · rename_i hnull
    exact Or.inl ⟨show -ENOMEM < (0 : Int) by decide, hg, fun h => h.2 hnull, fun h => by omega⟩
  rename_i hnull
  split
  · rename_i hread
    refine Or.inl ⟨show - EIO < (0 : Int) by decide, ?_, fun h => hread h.1.2.2, fun h => by omega⟩
    exact ⟨hg.saddr, hg.total, hg.entries, hg.tasks, hg.process, hg.processes⟩
  · rename_i hread
    refine Or.inr (Or.inl ⟨⟨hopen', hst', not_not.mp hread⟩, hnull, ?_⟩)
    simp only [hg.process]

theorem process_load_data_spec (hk : k.HeapOk) (file : ProgramFile) (process : Nat)
    (hstat : file.stat ≤ 0) (hpos : 0 < file.filesize) (hsize : file.filesize ≤ 2 ^ 32 - 4096)
    (hres : ¬ (k.process_load_data file process).1 < 0) :
    ∃ ptr k', k.process_load_data file process = (0, k') ∧ k.Since k' ∧ k'.UsedAt ptr ∧
      k'.processes = k.processes ∧
      k'.process process = { k.process process with ptr := ptr, size := file.filesize } ∧
      ∀ j < heap_total_blocks file.filesize, k'.Taken (ptr + j * 4096) := by
  rcases process_load_data_cases hk file process with ⟨hneg, -⟩ | ⟨-, hnull, heq⟩ | ⟨-, hgt, -⟩
  · exact absurd hneg hres
  · obtain ⟨r, hall⟩ := kzalloc_spec hk file.filesize hpos hsize hnull
    have hs := since_fill _ r hsize hall
      (put (k.kzalloc file.filesize).2.mem (k.kzalloc file.filesize).1 file.filesize file.data)
      fun x hx => if_neg hx
    have hused := usedAt_allocated _ r hall
    exact ⟨(k.kzalloc file.filesize).1, _, heq, since_trans hs (since_same rfl rfl), hused, hall.processes, if_pos rfl,
      fun j hj => taken_allocated _ r hall j hj⟩
  · omega

theorem process_load_for_slot_eq (k : Kernel) (file : ProgramFile) (filename : Nat → UInt8)
    (process_slot : Int) (uninit : Nat) (res res' : Nat × Kernel) (data : Int × Kernel)
    (h : k.kzalloc sizeof_process = res)
    (hdata : (res.2.setProcess res.1 .zero).process_load_data file res.1 = data)
    (h' : data.2.kzalloc PEACHOS_USER_PROGRAM_STACK_SIZE = res') :
    k.process_load_for_slot file filename process_slot uninit =
      if k.process_get process_slot ≠ 0 then (-EISTKN, 0, k.process_load_out (-EISTKN) uninit) else
      if res.1 = 0 then (-ENOMEM, 0, res.2.process_load_out (-ENOMEM) res.1) else
      if data.1 < 0 then (data.1, 0, data.2.process_load_out data.1 res.1) else
      if res'.1 = 0 then (-ENOMEM, 0, res'.2.process_load_out (-ENOMEM) res.1) else
      let p := res'.2.process res.1
      let k := res'.2.setProcess res.1 { p with
        filename := strncpy p.filename filename PEACHOS_MAX_PATH
        stack := res'.1
        id := u16 process_slot }
      k.process_load_task res.1 process_slot := by
  subst h hdata h'
  rfl

theorem process_load_for_slot_inv (file : ProgramFile) (filename : Nat → UInt8) (process_slot : Int)
    (uninit process : Nat) (res res' : Nat × Kernel) (data : Int × Kernel) (h : k.kzalloc sizeof_process = res)
    (hdata : (res.2.setProcess res.1 .zero).process_load_data file res.1 = data)
    (h' : data.2.kzalloc PEACHOS_USER_PROGRAM_STACK_SIZE = res')
    (hload : k.process_load_for_slot file filename process_slot uninit = (0, process, k')) :
    res.1 ≠ 0 ∧ ¬ data.1 < 0 ∧ res'.1 ≠ 0 ∧
      (res'.2.setProcess res.1 { res'.2.process res.1 with
        filename := strncpy (res'.2.process res.1).filename filename PEACHOS_MAX_PATH
        stack := res'.1
        id := u16 process_slot }).process_load_task res.1 process_slot = (0, process, k') := by
  rw [process_load_for_slot_eq k file filename process_slot uninit res res' data h hdata h'] at hload
  split at hload
  · exact absurd (Prod.mk.inj hload).1 (by decide)
  split at hload
  · exact absurd (Prod.mk.inj hload).1 (by decide)
  split at hload
  · exact absurd (Prod.mk.inj hload).1 (by omega)
  split at hload
  · exact absurd (Prod.mk.inj hload).1 (by decide)
  rename_i hne hneg hne'
  exact ⟨hne, hneg, hne', hload⟩

/-- The pages of the program and the stack of a process. -/
def OwnPage (p : Process) (a : Nat) : Prop :=
  (∃ i, i * 4096 < p.size ∧ a = p.ptr + i * 4096) ∨ ∃ i < 4, a = p.stack + i * 4096

/-- A process as `process_load` leaves it: its program and its stack are mapped, every other page is mapped to itself,
and the pages of the process are neither free nor pages of its directory. -/
structure Loaded (k : Kernel) (process dir : Nat) (table : Nat → Nat) : Prop extends
    Mapped k process dir table where
  program_fits : (k.process process).ptr + (k.process process).size + 4096 ≤ 2 ^ 32
  virtual_fits : 0x400000 + (k.process process).size + 4096 ≤ 2 ^ 32
  stack_fits : (k.process process).stack + 0x5000 ≤ 2 ^ 32
  map : ∀ v, v % 4096 = 0 → v < 2 ^ 32 → paging_get k.mem dir v = LoadedMap (k.process process) v
  own : ∀ a, OwnPage (k.process process) a → k.Taken a ∧
    a ≠ (k.tasks.task (k.process process).task).page_directory ∧ a ≠ dir ∧ ∀ i < 1024, a ≠ table i

theorem process_load_for_slot_loaded (hk : k.HeapOk) (file : ProgramFile) (filename : Nat → UInt8)
    (process_slot : Int) (uninit process : Nat) (hstat : file.stat ≤ 0) (hpos : 0 < file.filesize)
    (hlow : 0x400000 ≤ k.heap.saddr)
    (hfit : k.heap.saddr + k.heap.table.total * 4096 + file.filesize + 0x5000 ≤ 2 ^ 32)
    (hload : k.process_load_for_slot file filename process_slot uninit = (0, process, k'))
    (hoom : k'.oom = false) :
    ∃ dir table, Loaded k' process dir table ∧ (k'.process process).size = file.filesize ∧
      (∀ i, k'.processes i = if i = process_slot.toNat then process else k.processes i) ∧
      k'.heap.saddr = k.heap.saddr := by
  obtain ⟨res, hres⟩ : ∃ res, k.kzalloc sizeof_process = res := ⟨_, rfl⟩
  obtain ⟨data, hdata⟩ : ∃ data, (res.2.setProcess res.1 .zero).process_load_data file res.1 = data :=
    ⟨_, rfl⟩
  obtain ⟨res', hres'⟩ : ∃ res', data.2.kzalloc PEACHOS_USER_PROGRAM_STACK_SIZE = res' := ⟨_, rfl⟩
  obtain ⟨hne, hdatap, hne', htask⟩ := process_load_for_slot_inv file filename process_slot uninit process res res' data
    hres hdata hres' hload
  -- The record, the program and the stack are in new memory, one after the other.
  obtain ⟨r, hall⟩ := kzalloc_spec hk sizeof_process (by decide) (by decide) (by rw [hres]; exact hne)
  have hpused := usedAt_allocated _ r hall
  rw [hres] at hall hpused
  have hs1 : k.Since (res.2.setProcess res.1 .zero) := since_trans hall.since (since_same rfl rfl)
  have hk1 := since_heapOk hs1 hk
  obtain ⟨ptr, k2, heq, hs2, hptr, hps2, hp2, htaken⟩ := process_load_data_spec hk1 file res.1 hstat hpos (by omega)
    (by rw [hdata]; exact hdatap)
  rw [heq] at hdata
  rw [← hdata] at hres'
  dsimp only at hres'
  have hk2 := since_heapOk hs2 hk1
  obtain ⟨r', hall'⟩ := kzalloc_spec hk2 PEACHOS_USER_PROGRAM_STACK_SIZE (by decide) (by decide)
    (by rw [hres']; exact hne')
  have hsused := usedAt_allocated _ r' hall'
  rw [hres'] at hall' hsused
  obtain ⟨k4, hk4⟩ : ∃ k4, res'.2.setProcess res.1 { res'.2.process res.1 with
    filename := strncpy (res'.2.process res.1).filename filename PEACHOS_MAX_PATH
    stack := res'.1
    id := u16 process_slot } = k4 := ⟨_, rfl⟩
  rw [hk4] at htask
  have hs4 : res'.2.Since k4 := by
    rw [← hk4]
    exact since_same rfl rfl
  have hp4 : (k4.process res.1).ptr = ptr ∧ (k4.process res.1).size = file.filesize ∧
      (k4.process res.1).stack = res'.1 := by
    rw [← hk4]
    unfold setProcess
    dsimp only
    rw [if_pos rfl, hall'.process, hp2]
    exact ⟨rfl, rfl, rfl⟩
  obtain ⟨hp41, hp42, hp43⟩ := hp4
  have hs24 := since_trans hall'.since hs4
  have hs : k.Since k4 := since_trans hs1 (since_trans hs2 hs24)
  have hk4' := since_heapOk hs hk
  have hptr4 := since_usedAt hs24 _ hptr
  have hsused4 := since_usedAt hs4 _ hsused
  have hend : ∀ a, k4.UsedAt a → a + 4096 ≤ k.heap.saddr + k.heap.table.total * 4096 := by
    rintro a ⟨i, rfl, hi⟩
    rw [since_addr hs]
    have := hs.total ▸ hi.1
    unfold blockAddr
    omega
  have hptrlt := hend _ hptr4
  have hstacklt := hend _ hsused4
  have hown : ∀ a, OwnPage (k4.process res.1) a → k4.Taken a := by
    rintro a (⟨i, hi, rfl⟩ | ⟨i, hi, rfl⟩)
    · rw [hp42] at hi
      rw [hp41]
      obtain ⟨-, hcover⟩ := heap_total_blocks_of_le file.filesize (by unfold PEACHOS_HEAP_BLOCK_SIZE; omega)
      unfold PEACHOS_HEAP_BLOCK_SIZE at hcover
      exact since_taken hs24 _ (htaken i (by omega))
    · have hi' : i < heap_total_blocks PEACHOS_USER_PROGRAM_STACK_SIZE := hi
      have hmark := taken_allocated _ r' hall' i hi'
      rw [hres'] at hmark
      rw [hp43]
      exact since_taken hs4 _ hmark
  obtain ⟨-, k5, dir, table, heq5, hmapped, hp5, hps5, hget, hapart, hsaddr⟩ :=
    process_load_task_spec hk4' res.1 process_slot
    (since_usedAt (since_trans hs2 hs24) _ (hpused : (res.2.setProcess res.1 .zero).UsedAt res.1))
    (by rw [hp41]; exact hptr4) (by rw [hp43]; exact hsused4) (by rw [hp42]; exact hpos) (by rw [hp41, hp42]; omega)
    (by rw [hp42]; omega) (by rw [hp43]; omega) (by rw [htask]; exact hoom)
  rw [htask] at heq5
  obtain ⟨-, rfl, rfl⟩ : (0 : Int) = 0 ∧ process = res.1 ∧ k' = k5 := by
    simpa only [Prod.mk.injEq] using heq5
  have hsame : (k'.process res.1).ptr = ptr ∧ (k'.process res.1).size = file.filesize ∧
      (k'.process res.1).stack = res'.1 := by
    rw [hp5]
    exact ⟨hp41, hp42, hp43⟩
  obtain ⟨hq1, hq2, hq3⟩ := hsame
  refine ⟨dir, table, ⟨hmapped, ?_, ?_, ?_, hget, ?_⟩, hq2, fun i => ?_, hsaddr.trans hs.saddr⟩
  · rw [hq1, hq2]
    omega
  · rw [hq2]
    omega
  · rw [hq3]
    omega
  · intro a ha
    refine hapart a (hown a ?_)
    unfold OwnPage at ha ⊢
    rw [hq1, hq2, hq3] at ha
    rw [hp41, hp42, hp43]
    exact ha
  · have hps4 : k4.processes = k.processes := by
      rw [← hk4, ← hall.processes]
      exact hall'.processes.trans hps2
    rw [hps5 i, hps4]

end PeachOS.Memory
