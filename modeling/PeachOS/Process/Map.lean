import PeachOS.Process.Paging

/-!
# Mapping pages

One `paging_map` changes what the directory says about one page. `process_map_memory` maps the program and
the stack of a process, and leaves the other pages as they are.
-/

open PeachOS.Lib PeachOS.Blocks PeachOS.Kernel

namespace PeachOS.Memory

variable {k k' : Kernel} {chunk dir f : Nat} {table : Nat → Nat}

/-- The address of the table entry of a page. -/
def entryAddr (table : Nat → Nat) (virt : Nat) : Nat :=
  table (virt / 4194304) + 4 * (virt % 4194304 / 4096)

theorem entryAddr_apart (hk : k.HeapOk) (h : PageDir k chunk dir table f) (v w : Nat) (hv : v % 4096 = 0)
    (hw : w % 4096 = 0) (hv' : v < 2 ^ 32) (hw' : w < 2 ^ 32) (hne : v ≠ w) :
    entryAddr table v + 4 ≤ entryAddr table w ∨ entryAddr table w + 4 ≤ entryAddr table v := by
  have h1 := (usedAt_aligned hk _ (h.table_used (v / 4194304) (by omega))).1
  have h2 := (usedAt_aligned hk _ (h.table_used (w / 4194304) (by omega))).1
  unfold entryAddr
  by_cases heq : v / 4194304 = w / 4194304
  · rw [heq]
    omega
  · have := mt (h.table_inj _ (by omega) _ (by omega)) heq
    omega

theorem heapOk_write (hk : k.HeapOk) (mem : Nat → UInt8) : Kernel.HeapOk { k with mem := mem } :=
  ⟨hk.aligned, hk.pos, hk.fits, hk.small⟩

theorem pageDir_write (hk : k.HeapOk) (h : PageDir k chunk dir table f) (v x : Nat) (hv : v < 2 ^ 32) :
    PageDir { k with mem := write32 k.mem (entryAddr table v) x } chunk dir table f := by
  have ht := h.table_used (v / 4194304) (by omega)
  have hta := (usedAt_aligned hk _ ht).1
  have hca := usedAt_apart hk _ _ h.chunk_used hta (h.chunk_ne.2 _ (by omega)).symm
  have hda := usedAt_apart hk _ _ h.dir_used hta (h.dir_ne _ (by omega)).symm
  refine ⟨h.flags, h.chunk_used, h.dir_used, h.table_used, h.chunk_ne, h.dir_ne, h.table_inj, ?_, fun i hi => ?_⟩
  · rw [← h.chunk_eq]
    exact read32_write32_other _ _ _ (by unfold entryAddr; omega)
  · rw [← h.entry i hi]
    exact read32_write32_other _ _ _ (by unfold entryAddr; omega)

theorem paging_map_spec (hk : k.HeapOk) (h : PageDir k chunk dir table f) (virt phys flags : Nat)
    (hv : virt % 4096 = 0) (hlt : virt < 2 ^ 32) (hp : phys % 4096 = 0) :
    paging_map k.mem chunk virt phys flags =
      (0, write32 k.mem (entryAddr table virt) (phys ||| flags)) := by
  unfold paging_map paging_set
  rw [if_neg (by unfold PAGING_PAGE_SIZE; omega), paging_get_indexes_spec virt hv, h.chunk_eq]
  have hal : paging_is_aligned virt = true := decide_eq_true hv
  simp only [hal, Bool.not_true, Bool.false_eq_true, if_false]
  rw [if_neg (by omega), pageDir_table hk h _ (by omega)]
  rfl

theorem next_page (a : Nat) : u32 ((a : Int) + PAGING_PAGE_SIZE) = (a + 4096) % 2 ^ 32 := by
  unfold u32 PAGING_PAGE_SIZE
  omega

/-- The pages from `virt` on are mapped to the pages from `phys` on, and no other page changes. Virtual addresses
go around at 2^32. -/
theorem paging_map_range_around (hk : k.HeapOk) (h : PageDir k chunk dir table f) (flags count virt phys : Nat)
    (hf : flags < 4096) (hv : virt % 4096 = 0) (hp : phys % 4096 = 0) (hvlt : virt < 2 ^ 32)
    (hcount : count < 2 ^ 20) (hplt : phys + count * 4096 < 2 ^ 32) :
    ∃ mem, paging_map_range chunk flags count virt phys k.mem = (0, mem) ∧
      PageDir { k with mem := mem } chunk dir table f ∧
      (∀ x, (∀ i < 1024, ¬ (table i ≤ x ∧ x < table i + 4096)) → mem x = k.mem x) ∧
      ∀ v, v % 4096 = 0 → v < 2 ^ 32 → paging_get mem dir v =
        if (v + 2 ^ 32 - virt) % 2 ^ 32 < count * 4096 then (phys + (v + 2 ^ 32 - virt) % 2 ^ 32) ||| flags
        else paging_get k.mem dir v := by
  induction count generalizing k virt phys with
  | zero => exact ⟨k.mem, rfl, h, fun _ _ => rfl, fun v _ _ => (if_neg (by omega)).symm⟩
  | succ count ih =>
    rw [paging_map_range, paging_map_spec hk h virt phys flags hv (by omega) hp]
    dsimp only
    rw [if_neg (by omega), next_page virt, next_page phys,
      Nat.mod_eq_of_lt (show phys + 4096 < 2 ^ 32 by omega)]
    have h1 := pageDir_write hk h virt (phys ||| flags) (by omega)
    have hk1 := heapOk_write hk (write32 k.mem (entryAddr table virt) (phys ||| flags))
    obtain ⟨mem, heq, hdir, hframe, hget⟩ := ih hk1 h1 ((virt + 4096) % 2 ^ 32) (phys + 4096)
      (by omega) (by omega) (by omega) (by omega) (by omega)
    refine ⟨mem, heq, hdir, ?_, ?_⟩
    · intro x hx
      have := hx (virt / 4194304) (by omega)
      rw [hframe x hx]
      exact write32_of_not _ _ _ (by unfold entryAddr; omega)
    · intro v hva hvl
      rw [hget v hva hvl, paging_get_eq hk1 h1 v hva hvl]
      by_cases hvv : v = virt
      · -- the page that is mapped now is as far away from the next one as can be
        subst hvv
        rw [if_neg (by omega), if_pos (by omega), show (v + 2 ^ 32 - v) % 2 ^ 32 = 0 by omega, Nat.add_zero]
        exact read32_write32_same _ _ (or_lt phys flags hp hf (by omega))
      · have hnext : (v + 2 ^ 32 - virt) % 2 ^ 32 = (v + 2 ^ 32 - (virt + 4096) % 2 ^ 32) % 2 ^ 32 + 4096 := by
          omega
        have hold : read32 (write32 k.mem (entryAddr table virt) (phys ||| flags))
            (table (v / 4194304) + 4 * (v % 4194304 / 4096)) = paging_get k.mem dir v := by
          rw [paging_get_eq hk h v hva hvl]
          exact read32_write32_other _ _ _ (entryAddr_apart hk h virt v hv hva hvlt hvl (by omega))
        rw [hold, hnext]
        generalize (v + 2 ^ 32 - (virt + 4096) % 2 ^ 32) % 2 ^ 32 = i
        by_cases hin : i < count * 4096
        · rw [if_pos hin, if_pos (by omega), show phys + 4096 + i = phys + (i + 4096) by omega]
        · rw [if_neg hin, if_neg (by omega)]

theorem paging_map_range_spec (hk : k.HeapOk) (h : PageDir k chunk dir table f) (flags count virt phys : Nat)
    (hf : flags < 4096) (hv : virt % 4096 = 0) (hp : phys % 4096 = 0)
    (hvlt : virt + count * 4096 < 2 ^ 32) (hplt : phys + count * 4096 < 2 ^ 32) :
    ∃ mem, paging_map_range chunk flags count virt phys k.mem = (0, mem) ∧
      PageDir { k with mem := mem } chunk dir table f ∧
      (∀ x, (∀ i < 1024, ¬ (table i ≤ x ∧ x < table i + 4096)) → mem x = k.mem x) ∧
      ∀ v, v % 4096 = 0 → v < 2 ^ 32 → paging_get mem dir v =
        if virt ≤ v ∧ v < virt + count * 4096 then (phys + (v - virt)) ||| flags
        else paging_get k.mem dir v := by
  obtain ⟨mem, heq, hdir, hframe, hget⟩ := paging_map_range_around hk h flags count virt phys hf hv hp
    (by omega) (by omega) hplt
  refine ⟨mem, heq, hdir, hframe, ?_⟩
  intro v hva hvl
  rw [hget v hva hvl]
  by_cases hin : virt ≤ v ∧ v < virt + count * 4096
  · rw [if_pos hin, show (v + 2 ^ 32 - virt) % 2 ^ 32 = v - virt by omega, if_pos (by omega)]
  · rw [if_neg hin, if_neg (by omega)]

/-! ## `process_map_memory` -/

theorem paging_align_address_spec (ptr : Nat) (h : ptr + 4096 ≤ 2 ^ 32) :
    paging_align_address ptr = (ptr + 4095) / 4096 * 4096 := by
  unfold paging_align_address u32 PAGING_PAGE_SIZE
  split <;> omega

theorem paging_map_to_spec (hk : k.HeapOk) (h : PageDir k chunk dir table f) (flags virt phys size : Nat)
    (hf : flags < 4096) (hv : virt % 4096 = 0) (hp : phys % 4096 = 0)
    (hvlt : virt + size + 4096 ≤ 2 ^ 32) (hplt : phys + size + 4096 ≤ 2 ^ 32) :
    ∃ mem, paging_map_to k.mem chunk virt phys (paging_align_address (u32 (phys + size))) flags = (0, mem) ∧
      PageDir { k with mem := mem } chunk dir table f ∧
      (∀ x, (∀ i < 1024, ¬ (table i ≤ x ∧ x < table i + 4096)) → mem x = k.mem x) ∧
      ∀ v, v % 4096 = 0 → v < 2 ^ 32 → paging_get mem dir v =
        if virt ≤ v ∧ v < virt + size then (phys + (v - virt)) ||| flags else paging_get k.mem dir v := by
  have hsum : u32 ((phys : Int) + size) = phys + size := by
    unfold u32
    omega
  obtain ⟨n, hn⟩ : ∃ n, (size + 4095) / 4096 = n := ⟨_, rfl⟩
  have hend : paging_align_address (u32 (phys + size)) = phys + n * 4096 := by
    rw [hsum, paging_align_address_spec _ hplt]
    omega
  obtain ⟨mem, heq, hdir, hframe, hget⟩ := paging_map_range_spec hk h flags n virt phys hf hv hp
    (by omega) (by omega)
  refine ⟨mem, ?_, hdir, hframe, fun v hva hvl => ?_⟩
  · unfold paging_map_to PAGING_PAGE_SIZE
    rw [if_neg (by omega), if_neg (by omega), hend, if_neg (by omega), if_neg (by omega)]
    dsimp only
    rw [Nat.add_sub_cancel_left, Nat.mul_div_cancel n (by omega), heq]
  · -- A page starts in the region exactly if it is in the mapped range.
    rw [hget v hva hvl]
    have hiff : (virt ≤ v ∧ v < virt + n * 4096) ↔ (virt ≤ v ∧ v < virt + size) := by omega
    simp only [hiff]

theorem process_map_memory_spec (hk : k.HeapOk) (process : Nat)
    (h : PageDir k (k.tasks.task (k.process process).task).page_directory dir table f)
    (hptr : (k.process process).ptr % 4096 = 0) (hstack : (k.process process).stack % 4096 = 0)
    (hsize : (k.process process).ptr + (k.process process).size + 4096 ≤ 2 ^ 32)
    (hvirt : 0x400000 + (k.process process).size + 4096 ≤ 2 ^ 32)
    (hslt : (k.process process).stack + 0x5000 ≤ 2 ^ 32) :
    ∃ mem, k.process_map_memory process = (0, { k with mem := mem }) ∧
      PageDir { k with mem := mem } (k.tasks.task (k.process process).task).page_directory dir table f ∧
      (∀ x, (∀ i < 1024, ¬ (table i ≤ x ∧ x < table i + 4096)) → mem x = k.mem x) ∧
      ∀ v, v % 4096 = 0 → v < 2 ^ 32 → paging_get mem dir v =
        if 0x3FB000 ≤ v ∧ v < 0x3FF000 then ((k.process process).stack + (v - 0x3FB000)) ||| 7
        else if 0x400000 ≤ v ∧ v < 0x400000 + (k.process process).size then
          ((k.process process).ptr + (v - 0x400000)) ||| 7
        else paging_get k.mem dir v := by
  obtain ⟨mem, heq, hdir, hframe, hget⟩ := paging_map_to_spec hk h 7 0x400000 _ _ (by omega) (by omega)
    hptr hvirt hsize
  obtain ⟨mem', heq', hdir', hframe', hget'⟩ := paging_map_to_spec (heapOk_write hk mem) hdir 7 0x3FB000
    (k.process process).stack 0x4000 (by omega) (by omega) hstack (by omega) (by omega)
  refine ⟨mem', ?_, hdir', fun x hx => (hframe' x hx).trans (hframe x hx), fun v hva hvl => ?_⟩
  · have hbin : k.process_map_binary process = (0, { k with mem := mem }) := by
      unfold process_map_binary
      rw [show user_flags = 7 from rfl, show PEACHOS_PROGRAM_VIRTUAL_ADDRESS = 0x400000 from rfl]
      dsimp only
      rw [heq]
    unfold process_map_memory
    rw [hbin]
    dsimp only at heq' ⊢
    rw [if_neg (by omega), show user_flags = 7 from rfl,
      show PEACHOS_PROGRAM_VIRTUAL_STACK_ADDRESS_END = 0x3FB000 from rfl,
      show PEACHOS_USER_PROGRAM_STACK_SIZE = 0x4000 from rfl, heq']
  · rw [hget' v hva hvl]
    dsimp only
    rw [hget v hva hvl]

/-- A process whose memory has been mapped. Its records and pages are in use, its program is in the address
space, and no page of the directory is the page its program starts with. -/
structure Mapped (k : Kernel) (process dir : Nat) (table : Nat → Nat) : Prop where
  heap : k.HeapOk
  size_pos : 0 < (k.process process).size
  fits : (k.process process).ptr + (k.process process).size ≤ 2 ^ 32
  process_used : k.UsedAt process
  task_used : k.UsedAt (k.process process).task
  ptr_used : k.UsedAt (k.process process).ptr
  stack_used : k.UsedAt (k.process process).stack
  pageDir : PageDir k (k.tasks.task (k.process process).task).page_directory dir table 7
  ptr_ne : (k.process process).ptr ≠ (k.tasks.task (k.process process).task).page_directory ∧
    (k.process process).ptr ≠ dir ∧ ∀ i < 1024, (k.process process).ptr ≠ table i
  program : ∀ i, i * 4096 < (k.process process).size → 0x400000 + i * 4096 < 2 ^ 32 →
    paging_get k.mem dir (0x400000 + i * 4096) = ((k.process process).ptr + i * 4096) ||| 7
  stack : ∀ i < 4,
    paging_get k.mem dir (0x3FB000 + i * 4096) = ((k.process process).stack + i * 4096) ||| 7

end PeachOS.Memory
