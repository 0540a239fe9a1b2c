import PeachOS.Process.Room

/-!
# A forked child runs in the memory of its parent

`process_fork` fills `child->ptr` and `child->stack` and never maps them. So parent and child read each
other's stores.
-/

open PeachOS.Lib PeachOS.Blocks PeachOS.Kernel

namespace PeachOS.Memory

variable {k k' : Kernel} {chunk dir f : Nat} {table : Nat → Nat}

theorem and_of_or (a f g : Nat) (ha : a % 4096 = 0) (hg : g < 4096) (hfg : f &&& g = g) :
    (a ||| f) &&& g = g := by
  have hzero : a &&& g = 0 := by
    have hlow : a &&& 0xfff = 0 := by
      rw [show 0xfff = 2 ^ 12 - 1 from rfl, Nat.and_two_pow_sub_one_eq_mod]
      omega
    have hg' : 0xfff &&& g = g := by
      rw [Nat.and_comm, show 0xfff = 2 ^ 12 - 1 from rfl, Nat.and_two_pow_sub_one_eq_mod]
      exact Nat.mod_eq_of_lt hg
    rw [← hg', ← Nat.and_assoc, hlow, Nat.zero_and]
  rw [Nat.and_or_distrib_right, hzero, hfg, Nat.zero_or]

theorem user_access (hk : k.HeapOk) (process a va : Nat)
    (hdir : PageDir k (k.tasks.task (k.process process).task).page_directory dir table 7)
    (hva : va < 2 ^ 32) (ha : a % 4096 = 0) (halt : a < 2 ^ 32)
    (hget : paging_get k.mem dir (va - va % 4096) = a ||| 7) (g : Nat) (hg : g < 4096) (h7 : 7 &&& g = g) :
    k.Allowed process va g ∧ k.translate process va = a + va % 4096 := by
  have hd : k.directory process = dir := hdir.chunk_eq
  unfold Allowed Kernel.translate
  rw [hd, hget, hdir.entry _ (by omega), table_of_or a 7 ha halt (by omega)]
  exact ⟨⟨and_of_or _ 7 g (usedAt_aligned hk _ (hdir.table_used _ (by omega))).1 hg h7,
    and_of_or a 7 g ha hg h7⟩, rfl⟩

theorem pageDir_store (hk : k.HeapOk) (h : PageDir k chunk dir table f) (a o : Nat) (b : UInt8)
    (ha : a % 4096 = 0) (ho : o < 4096) (hne : a ≠ chunk ∧ a ≠ dir ∧ ∀ i < 1024, a ≠ table i) :
    PageDir { k with mem := fun x => if x = a + o then b else k.mem x } chunk dir table f ∧
      ∀ v, v % 4096 = 0 → v < 2 ^ 32 →
        paging_get (fun x => if x = a + o then b else k.mem x) dir v = paging_get k.mem dir v := by
  have hread : ∀ p, k.UsedAt p → a ≠ p → ∀ w, w + 4 ≤ 4096 →
      read32 (fun x => if x = a + o then b else k.mem x) (p + w) = read32 k.mem (p + w) := by
    intro p hp hpa w hw
    have hpl := (usedAt_aligned hk p hp).1
    exact read32_congr _ _ fun i hi => if_neg (by omega)
  have hdir : PageDir { k with mem := fun x => if x = a + o then b else k.mem x } chunk dir table f := by
    refine ⟨h.flags, h.chunk_used, h.dir_used, h.table_used, h.chunk_ne, h.dir_ne, h.table_inj, ?_,
      fun i hi => ?_⟩
    · rw [← h.chunk_eq]
      exact hread chunk h.chunk_used hne.1 0 (by omega)
    · rw [← h.entry i hi]
      exact hread dir h.dir_used hne.2.1 (4 * i) (by omega)
  refine ⟨hdir, fun v hv hlt => ?_⟩
  rw [paging_get_eq hk h v hv hlt]
  refine (paging_get_eq (heapOk_write hk _) hdir v hv hlt).trans ?_
  exact hread _ (h.table_used _ (by omega)) (hne.2.2 _ (by omega)) _ (by omega)

/-! ## The pages after a fork -/

section Forked

variable {parent child slot cdir : Nat} {ctable : Nat → Nat}

theorem forked_first_page (h : Mapped k parent dir table)
    (hf : Forked k k' parent child slot cdir table ctable) :
    paging_get k'.mem dir 0x400000 = (k.process parent).ptr ||| 7 ∧
      paging_get k'.mem cdir 0x400000 = (k.process parent).ptr ||| 7 := by
  have hpage := h.program 0 (by have := h.size_pos; omega) (by omega)
  rw [Nat.zero_mul, Nat.add_zero, Nat.add_zero] at hpage
  rw [← hpage]
  exact forked_get h.heap parent child _ cdir _ ctable h.pageDir hf 0x400000 (by omega) (by omega)

theorem forked_not_mapsOwnPages (h : Mapped k parent dir table)
    (hf : Forked k k' parent child slot cdir table ctable)
    (hsize : (k'.process child).size = (k.process parent).size)
    (hptr : (k.process parent).ptr ≠ (k'.process child).ptr) : ¬ k'.MapsOwnPages child := by
  rintro ⟨hown, -⟩
  obtain ⟨hpa, hplt⟩ := usedAt_aligned h.heap _ h.ptr_used
  have hcd : k'.directory child = cdir := hf.child_dir.chunk_eq
  have h0 := hown 0 (by rw [hsize, Nat.zero_mul]; exact h.size_pos)
  rw [hcd, Nat.zero_mul, Nat.add_zero, Nat.add_zero, show PEACHOS_PROGRAM_VIRTUAL_ADDRESS = 0x400000 from rfl,
    (forked_first_page h hf).2, table_of_or _ 7 hpa hplt (by omega)] at h0
  exact hptr h0

theorem forked_not_isolated (h : Mapped k parent dir table)
    (hf : Forked k k' parent child slot cdir table ctable) (hne : parent ≠ child)
    (hsize : (k'.process child).size = (k.process parent).size) : ¬ k'.Isolated parent child := by
  intro hiso
  have hk' := since_heapOk hf.since h.heap
  have hparent := hf.other parent hne
  obtain ⟨hpa, hplt⟩ := usedAt_aligned h.heap _ h.ptr_used
  obtain ⟨hpget, hcget⟩ := forked_first_page h hf
  have hpdir : PageDir k' (k'.tasks.task (k'.process parent).task).page_directory dir table 7 := by
    rw [hparent, hf.parent_directory]
    exact pageDir_since h.pageDir hf.since
  obtain ⟨hstore, haddr⟩ := user_access hk' child (k.process parent).ptr 0x400000 hf.child_dir (by omega) hpa
    hplt hcget 7 (by omega) (by decide)
  obtain ⟨hload, hladdr⟩ := user_access hk' parent (k.process parent).ptr 0x400000 hpdir (by omega) hpa
    hplt hpget 5 (by omega) (by decide)
  have hregion : ∀ p, (k'.process p).size = (k.process parent).size → k'.InRegions p 0x400000 := by
    intro p hp
    have hpos := h.size_pos
    refine Or.inl ⟨Nat.le_refl _, ?_⟩
    rw [hp]
    unfold PEACHOS_PROGRAM_VIRTUAL_ADDRESS
    omega
  have hread := hiso [⟨child, 0x400000, k'.mem (k.process parent).ptr + 1⟩]
    (fun s hs => by
      rw [List.mem_singleton] at hs
      rw [hs]
      exact ⟨Or.inr rfl, hregion child hsize⟩)
    parent (Or.inl rfl) 0x400000 (hregion parent (by rw [hparent]))
  have hdif : k'.mem (k.process parent).ptr + 1 ≠ k'.mem (k.process parent).ptr := by
    intro heq
    exact absurd (UInt8.add_eq_left.mp heq) (by decide)
  generalize k'.mem (k.process parent).ptr + 1 = b at hread hdif
  obtain ⟨hdir1, hget1⟩ := pageDir_store hk' hpdir (k.process parent).ptr 0 b hpa (by omega) (by
    rw [hparent, hf.parent_directory]
    exact h.ptr_ne)
  have hstored : k'.userStore ⟨child, 0x400000, b⟩ =
      { k' with mem := fun x => if x = (k.process parent).ptr + 0 then b else k'.mem x } := by
    unfold userStore
    rw [if_pos hstore, haddr]
  obtain ⟨hload1, hladdr1⟩ := user_access (heapOk_write hk' _) parent (k.process parent).ptr 0x400000 hdir1
    (by omega) hpa hplt ((hget1 0x400000 (by omega) (by omega)).trans hpget) 5 (by omega) (by decide)
  have hfilter : [(⟨child, 0x400000, b⟩ : UserStore)].filter (fun s => s.process = parent) = [] := by
    simp [hne.symm]
  rw [hfilter, List.foldl_cons, List.foldl_nil, List.foldl_nil, hstored] at hread
  unfold userLoad at hread
  rw [if_pos hload1, if_pos hload, hladdr1, hladdr] at hread
  dsimp only at hread
  rw [if_pos rfl, Option.some_inj] at hread
  exact hdif hread

end Forked

/-- After every fork that succeeds the child's program region is mapped to the pages of its parent, and a
store of the child can be read by the parent. -/
theorem fork_never_isolates (k k' : Kernel) (parent child dir : Nat) (table : Nat → Nat)
    (h : Mapped k parent dir table) (hfork : k.process_fork parent = (0, child, k'))
    (hoom : k'.oom = false) : ¬ k'.MapsOwnPages child ∧ ¬ k'.Isolated parent child := by
  obtain ⟨hne, -, cdir, ctable, hptr, hsize, -, hf⟩ := process_fork_spec parent child h hfork hoom
  exact ⟨forked_not_mapsOwnPages h hf hsize hptr, forked_not_isolated h hf hne hsize⟩

/-! ## A program that is loaded after boot and forks -/

/-- The kernel heap is empty and no process has been loaded. -/
def bootKernel : Kernel where
  mem := fun _ => 0
  heap := ⟨⟨fun _ => 0, fun _ => 0, PEACHOS_HEAP_SIZE_BYTES / PEACHOS_HEAP_BLOCK_SIZE, []⟩, PEACHOS_HEAP_ADDRESS⟩
  tasks := ⟨fun _ => .zero, 0, 0, 0⟩
  process := fun _ => .zero
  processes := fun _ => 0
  oom := false

/-- A program of one byte. -/
def tinyProgram : ProgramFile := ⟨true, 0, 1, 1, fun _ => 0⟩

def bootLoad : Int × Nat × Kernel := bootKernel.process_load tinyProgram (fun _ => 0) 0

def bootFork : Int × Nat × Kernel := bootLoad.2.2.process_fork bootLoad.2.1

theorem bootKernel_free (i : Nat) : bootKernel.heap.table.Free i :=
  show heap_get_entry_type 0 = HEAP_BLOCK_TABLE_ENTRY_FREE by decide

theorem bootKernel_room : Room bootKernel 25600 :=
  ⟨⟨by decide, by decide, by decide, by decide⟩, rfl, by decide, fun i _ _ => bootKernel_free i⟩

theorem bootLoad_spec : ∃ process k dir table, bootLoad = (0, process, k) ∧ Room k 24000 ∧
    Loaded k process dir table ∧ (k.process process).size = 1 ∧ 0 ≤ k.process_get_free_slot ∧
    k.heap.saddr = 0x1000000 := by
  have hslot : bootKernel.process_get_free_slot = 0 := by decide
  obtain ⟨process, k, heq, hroom⟩ := process_load_for_slot_succeeds tinyProgram (fun _ => 0) 0 0 24000
    (by decide : bootKernel.process_get 0 = 0) rfl rfl rfl (by decide)
    (room_le _ _ bootKernel_room (by decide))
  obtain ⟨dir, table, hloaded, hsize, hprocesses, hsaddr⟩ := process_load_for_slot_loaded bootKernel_room.heap
    tinyProgram (fun _ => 0) 0 0 process (by decide) (by decide) (by decide) (by decide) heq hroom.oom
  have hload : bootLoad = (0, process, k) := by
    unfold bootLoad process_load
    dsimp only
    rw [hslot, if_neg (by omega)]
    exact heq
  refine ⟨process, k, dir, table, hload, hroom, hloaded, hsize, ?_, hsaddr⟩
  have h0 : k.processes 0 ≠ 0 := by
    rw [hprocesses 0, if_pos (by decide)]
    exact usedAt_ne_zero hloaded.heap _ hloaded.process_used
  have h1 : k.processes 1 = 0 := by
    rw [hprocesses 1, if_neg (by decide)]
    rfl
  unfold process_get_free_slot PEACHOS_MAX_PROCESSES
  rw [process_get_free_slot_loop, if_neg h0, process_get_free_slot_loop, if_pos h1]
  decide

theorem bootFork_spec : ∃ k process dir table child k', bootLoad = (0, process, k) ∧
    Mapped k process dir table ∧ k.process_fork process = (0, child, k') ∧ bootFork = (0, child, k') ∧
    k'.oom = false := by
  obtain ⟨process, k, dir, table, hload, hroom, ⟨hmapped, -⟩, hsize, hslot, -⟩ := bootLoad_spec
  obtain ⟨child, k', hfork, hroom'⟩ := process_fork_succeeds process 0 hmapped hslot (by
    rw [hsize]
    exact room_le _ _ hroom (by decide))
  refine ⟨k, process, dir, table, child, k', hload, hmapped, hfork, ?_, hroom'.oom⟩
  unfold bootFork
  rw [hload]
  exact hfork

theorem bootFork_shares : bootFork.1 = 0 ∧ bootFork.2.2.oom = false ∧
    ¬ bootFork.2.2.MapsOwnPages bootFork.2.1 ∧ ¬ bootFork.2.2.Isolated bootLoad.2.1 bootFork.2.1 := by
  obtain ⟨k, process, dir, table, child, k', hload, hmapped, hfork, hboot, hoom⟩ := bootFork_spec
  rw [hboot, hload]
  exact ⟨rfl, hoom, fork_never_isolates k k' process child dir table hmapped hfork hoom⟩

/-- The fork succeeded, and the child is not isolated from its parent. -/
theorem bootFork_not_isolated : bootFork.1 = 0 ∧ bootFork.2.2.oom = false ∧
    ¬ (bootFork.2.2.MapsOwnPages bootFork.2.1 ∧ bootFork.2.2.Isolated bootLoad.2.1 bootFork.2.1) := by
  obtain ⟨k, process, dir, table, child, k', hload, hmapped, hfork, hboot, hoom⟩ := bootFork_spec
  obtain ⟨hne, -, cdir, ctable, hptr, hsize, -, hf⟩ := process_fork_spec process child hmapped hfork hoom
  rw [hboot, hload]
  exact ⟨rfl, hoom, fun hboth => forked_not_isolated hmapped hf hne hsize hboth.2⟩

end PeachOS.Memory
