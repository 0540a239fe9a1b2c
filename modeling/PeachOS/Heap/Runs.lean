import PeachOS.Heap.Table
import PeachOS.Lib.Run

/-!
# Heap safety over whole runs

A run is a sequence of `heap_malloc` and `heap_free` calls. The search takes the free blocks at the end
of the table for any request that it cannot meet, so a run is safe as long as that does not happen.
-/

open PeachOS.Lib

namespace PeachOS

/-- An allocation that has not been freed. -/
structure Alloc where
  ptr : Nat
  size : Nat

/-- The first block of an allocation. A heap may go on at address 0. -/
def Alloc.block (a : Alloc) (saddr : Nat) : Nat := u32 (a.ptr - saddr) / PEACHOS_HEAP_BLOCK_SIZE

/-- The number of blocks that the code takes for an allocation. -/
def Alloc.blocks (a : Alloc) : Nat := heap_total_blocks a.size

structure HeapState where
  heap : Heap
  out : List Alloc

/-- `free k` frees the `k`-th of the allocations that are left, in the order of their calls. -/
inductive HeapCall
  | malloc (size : UInt32)
  | free (k : Nat)

namespace HeapState

/-- One call. `keeps` says of an address if it is an allocation. -/
def next (keeps : Nat → Bool) (s : HeapState) : HeapCall → HeapState
  | .malloc size =>
    let res := heap_malloc s.heap size.toNat
    { heap := res.2, out := if keeps res.1 then s.out ++ [⟨res.1, size.toNat⟩] else s.out }
  | .free k =>
    match s.out[k]? with
    | some a => { heap := heap_free s.heap a.ptr, out := s.out.eraseIdx k }
    | none => s

/-- Null is not an allocation. -/
def step (s : HeapState) (c : HeapCall) : HeapState := s.next (fun ptr => ptr ≠ 0) c

/-- What has to hold in every state: the allocations lie in the heap, are large enough and have no block
in common, and no entry behind the table was written. -/
structure Safe (s : HeapState) : Prop where
  aligned : ∀ a ∈ s.out, a.ptr = s.heap.saddr + a.block s.heap.saddr * PEACHOS_HEAP_BLOCK_SIZE
  inside : ∀ a ∈ s.out, a.block s.heap.saddr + a.blocks ≤ s.heap.table.total
  covers : ∀ a ∈ s.out, a.size ≤ a.blocks * PEACHOS_HEAP_BLOCK_SIZE
  apart : s.out.Pairwise fun a b =>
    RunsApart (a.block s.heap.saddr) a.blocks (b.block s.heap.saddr) b.blocks
  written : ∀ i ∈ s.heap.table.written, i < s.heap.table.total

/-- The blocks that a request of `size` bytes needs. -/
def needed (size : Nat) : Nat := (size + (PEACHOS_HEAP_BLOCK_SIZE - 1)) / PEACHOS_HEAP_BLOCK_SIZE

/-- What has to hold of a call: the state after it is safe, and a request that does not fit gets null. -/
def SafeCall (s : HeapState) (c : HeapCall) : Prop :=
  (s.step c).Safe ∧ ∀ size, c = .malloc size → ¬ s.heap.table.HasRun (needed size.toNat) →
    (heap_malloc s.heap size.toNat).1 = 0

/-- The calls that the heap can serve. A request comes when the last block of the table is taken, or fits
and does not wrap around when it is rounded up. A pointer from a request of zero bytes is not freed while
its block belongs to another allocation. -/
def Served (s : HeapState) : HeapCall → Prop
  | .malloc size => s.heap.table.total = 0 ∨ ¬ s.heap.table.Free (s.heap.table.total - 1) ∨
      (size.toNat ≤ 2 ^ 32 - PEACHOS_HEAP_BLOCK_SIZE ∧ s.heap.table.HasRun (needed size.toNat))
  | .free k => ∀ a, s.out[k]? = some a → a.size ≠ 0 ∨
      s.heap.table.entries (a.block s.heap.saddr) = HEAP_BLOCK_TABLE_ENTRY_FREE

end HeapState

namespace Blocks

/-! ## Sizes and addresses -/

theorem heap_total_blocks_of_le (size : Nat) (h : size ≤ 2 ^ 32 - PEACHOS_HEAP_BLOCK_SIZE) :
    heap_total_blocks size = HeapState.needed size ∧
      size ≤ heap_total_blocks size * PEACHOS_HEAP_BLOCK_SIZE := by
  unfold heap_total_blocks heap_align_value_to_upper HeapState.needed PEACHOS_HEAP_BLOCK_SIZE at *
  split
  · omega
  · rw [u32_natCast]
    omega

theorem heap_total_blocks_of_gt (size : Nat) (h : 2 ^ 32 - PEACHOS_HEAP_BLOCK_SIZE < size)
    (hlt : size < 2 ^ 32) : heap_total_blocks size = 0 := by
  unfold heap_total_blocks heap_align_value_to_upper PEACHOS_HEAP_BLOCK_SIZE at *
  rw [if_neg (by omega), u32_natCast]
  omega

theorem heap_block_to_address_eq (heap : Heap) (r : Nat) :
    heap_block_to_address heap r = u32 (heap.saddr + r * PEACHOS_HEAP_BLOCK_SIZE : Nat) := rfl

theorem heap_block_to_address_spec (heap : Heap) (r : Nat)
    (hr : heap.saddr + r * PEACHOS_HEAP_BLOCK_SIZE < 2 ^ 32) :
    heap_block_to_address heap r = heap.saddr + r * PEACHOS_HEAP_BLOCK_SIZE := by
  rw [heap_block_to_address_eq, u32_natCast, Nat.mod_eq_of_lt hr]

theorem u32_sub_u32 (x y : Int) : u32 (u32 x - y) = u32 (x - y) := by
  unfold u32
  omega

theorem i32_u32_sub (x y : Int) : i32 (u32 x - y) = i32 (x - y) := by
  have hu : (u32 x : Int) = x % 2 ^ 32 := by
    unfold u32
    omega
  unfold i32
  rw [hu]
  exact Int.emod_sub_bmod x (2 ^ 32)

theorem address_to_block (heap : Heap) (b : Nat) (hb : b * PEACHOS_HEAP_BLOCK_SIZE < 0x80000000) :
    heap_address_to_block heap (u32 (heap.saddr + b * PEACHOS_HEAP_BLOCK_SIZE : Nat)) = b := by
  unfold PEACHOS_HEAP_BLOCK_SIZE at *
  have hi : i32 ((u32 (heap.saddr + b * 4096 : Nat) : Int) - heap.saddr) = (b * 4096 : Nat) := by
    rw [i32_u32_sub, show ((heap.saddr + b * 4096 : Nat) : Int) - heap.saddr = (b * 4096 : Nat) by omega]
    exact i32_of_lt _ (by omega) (by omega)
  unfold heap_address_to_block
  rw [hi, Int.tdiv_eq_ediv_of_nonneg (by omega)]
  unfold PEACHOS_HEAP_BLOCK_SIZE
  omega

theorem heap_address_to_block_spec (heap : Heap) (b : Nat)
    (hb : b * PEACHOS_HEAP_BLOCK_SIZE < 0x80000000) :
    heap_address_to_block heap (heap.saddr + b * PEACHOS_HEAP_BLOCK_SIZE) = b := by
  unfold heap_address_to_block PEACHOS_HEAP_BLOCK_SIZE at *
  rw [i32_of_lt _ (by omega) (by omega), Int.tdiv_eq_ediv_of_nonneg (by omega)]
  omega

theorem alloc_block (saddr b size : Nat) (hb : b * PEACHOS_HEAP_BLOCK_SIZE < 0x80000000) :
    (⟨u32 (saddr + b * PEACHOS_HEAP_BLOCK_SIZE : Nat), size⟩ : Alloc).block saddr = b := by
  unfold Alloc.block PEACHOS_HEAP_BLOCK_SIZE at *
  rw [u32_sub_u32, show ((saddr + b * 4096 : Nat) : Int) - saddr = (b * 4096 : Nat) by omega, u32_natCast,
    Nat.mod_eq_of_lt (by omega)]
  exact Nat.mul_div_cancel b (by decide)

theorem block_small {total b n bound : Nat} (h : total * PEACHOS_HEAP_BLOCK_SIZE < bound) (hb : b + n ≤ total) :
    b * PEACHOS_HEAP_BLOCK_SIZE < bound :=
  Nat.lt_of_le_of_lt (Nat.mul_le_mul_right _ (Nat.le_of_add_right_le hb)) h

/-! ## The invariant -/

variable {table table' : HeapTable} {s : HeapState}

/-- The blocks of an allocation in the table. -/
structure Held (heap : Heap) (a : Alloc) : Prop where
  ptr : a.ptr = u32 (heap.saddr + a.block heap.saddr * PEACHOS_HEAP_BLOCK_SIZE : Nat)
  inside : a.block heap.saddr + a.blocks ≤ heap.table.total
  marked : heap.table.Marked (a.block heap.saddr) a.blocks

structure HeapInv (s : HeapState) : Prop where
  small : s.heap.table.total * PEACHOS_HEAP_BLOCK_SIZE < 0x80000000
  held : ∀ a ∈ s.out, Held s.heap a
  apart : s.out.Pairwise fun a b =>
    RunsApart (a.block s.heap.saddr) a.blocks (b.block s.heap.saddr) b.blocks

theorem marked_frame (b m r n : Nat) (hc : table.Frame table' r n) (ha : RunsApart b m r n)
    (h : table.Marked b m) : table'.Marked b m := by
  intro i h1 h2
  have := h i h1 h2
  unfold HeapTable.Free at this ⊢
  rwa [hc.frame i (ha i h1 h2)]

theorem held_frame (heap heap' : Heap) (a : Alloc) (r n : Nat) (hs : heap'.saddr = heap.saddr)
    (hc : heap.table.Frame heap'.table r n) (ha : RunsApart (a.block heap.saddr) a.blocks r n)
    (h : Held heap a) : Held heap' a := by
  refine ⟨?_, ?_, ?_⟩
  · rw [hs]
    exact h.ptr
  · rw [hs, hc.total]
    exact h.inside
  · rw [hs]
    exact marked_frame _ _ r n hc ha h.marked

theorem mem_kept {out : List Alloc} {a x : Alloc} {keeps : Bool} (ha : a ∈ if keeps then out ++ [x] else out) :
    a ∈ out ∨ a = x := by
  split at ha
  · simpa using ha
  · exact Or.inl ha

theorem heapInv_taken (h : HeapInv s) (size r : Nat) (hr : r + heap_total_blocks size ≤ s.heap.table.total)
    (hfree : AllIn s.heap.table.Free r (heap_total_blocks size)) (keeps : Bool) :
    HeapInv ⟨heap_mark_blocks_taken s.heap r (heap_total_blocks size),
      if keeps then s.out ++ [⟨heap_block_to_address s.heap r, size⟩] else s.out⟩ := by
  obtain ⟨hs, hc, hm⟩ := heap_mark_blocks_taken_spec s.heap r (heap_total_blocks size)
  generalize heap_mark_blocks_taken s.heap r (heap_total_blocks size) = heap' at *
  have hb := alloc_block s.heap.saddr r size (block_small h.small hr)
  have hapart : ∀ a ∈ s.out, RunsApart (a.block s.heap.saddr) a.blocks r (heap_total_blocks size) := fun a ha =>
    runsApart_symm _ _ _ _ (runsApart_of_not r _ _ _ hfree fun i h1 h2 => ((h.held a ha).marked i h1 h2).1)
  rw [heap_block_to_address_eq]
  refine ⟨?_, ?_, ?_⟩
  · dsimp only
    rw [hc.total]
    exact h.small
  · intro a ha
    rcases mem_kept ha with ha | rfl
    · exact held_frame s.heap heap' a r _ hs hc.toFrame (hapart a ha) (h.held a ha)
    · refine ⟨?_, ?_, ?_⟩
      · dsimp only
        rw [hs, hb]
      · dsimp only
        rw [hs, hb, hc.total]
        exact hr
      · dsimp only
        rw [hs, hb]
        exact hm
  · dsimp only
    rw [hs]
    split
    · refine List.pairwise_append.mpr ⟨h.apart, List.pairwise_singleton _ _, fun a ha b hbmem => ?_⟩
      rw [List.mem_singleton] at hbmem
      subst hbmem
      rw [hb]
      exact hapart a ha
    · exact h.apart

theorem heap_free_table (heap : Heap) (a : Alloc)
    (hsmall : heap.table.total * PEACHOS_HEAP_BLOCK_SIZE < 0x80000000) (ha : Held heap a) :
    (heap_free heap a.ptr).table =
      heap_mark_blocks_free_loop (heap.table.total - a.block heap.saddr) (a.block heap.saddr) heap.table := by
  unfold heap_free
  have hblock := address_to_block heap _ (block_small hsmall ha.inside)
  rw [← ha.ptr] at hblock
  rw [hblock, heap_mark_blocks_free_block]

theorem heap_free_held (heap : Heap) (a : Alloc) (hsmall : heap.table.total * PEACHOS_HEAP_BLOCK_SIZE < 0x80000000)
    (ha : Held heap a) (hpos : 1 ≤ a.blocks) :
    heap.table.Changes (heap_free heap a.ptr).table (a.block heap.saddr) a.blocks ∧
      AllIn (fun i => (heap_free heap a.ptr).table.entries i = HEAP_BLOCK_TABLE_ENTRY_FREE) (a.block heap.saddr)
        a.blocks := by
  have hin := ha.inside
  rw [heap_free_table heap a hsmall ha]
  exact heap_mark_blocks_free_loop_spec a.blocks (heap.table.total - a.block heap.saddr) (a.block heap.saddr) hpos
    (by omega) ha.marked

theorem heapInv_freed (h : HeapInv s) (k : Nat) (a : Alloc) (ha : s.out[k]? = some a)
    (hf : s.heap.table.Frame (heap_free s.heap a.ptr).table (a.block s.heap.saddr) a.blocks) :
    HeapInv ⟨heap_free s.heap a.ptr, s.out.eraseIdx k⟩ := by
  have hs : (heap_free s.heap a.ptr).saddr = s.heap.saddr := rfl
  refine ⟨?_, ?_, ?_⟩
  · dsimp only
    rw [hf.total]
    exact h.small
  · intro b hb
    apply held_frame s.heap _ b _ _ hs hf
    · exact pairwise_erased _ (fun _ _ => runsApart_symm _ _ _ _) h.apart k a b ha hb
    · exact h.held b (List.mem_of_mem_eraseIdx hb)
  · exact h.apart.sublist (List.eraseIdx_sublist _ _)

theorem heap_create_spec (heap₀ heap : Heap) (ptr end_ : Nat) (table : HeapTable)
    (h : heap_create heap₀ ptr end_ table = (0, heap)) :
    table.total = u32 ((end_ : Int) - ptr) / PEACHOS_HEAP_BLOCK_SIZE ∧
      heap = { table := table.clear, saddr := ptr } := by
  unfold heap_create heap_validate_table at h
  split at h
  · exact absurd (Prod.mk.inj h).1 (by decide)
  · by_cases htotal : table.total = u32 ((end_ : Int) - ptr) / PEACHOS_HEAP_BLOCK_SIZE
    · simp only [htotal, ne_eq, not_true_eq_false, if_false, Int.lt_irrefl, Prod.mk.injEq, true_and] at h
      exact ⟨htotal, h.symm⟩
    · rw [if_pos htotal] at h
      simp only [if_pos (show -EINVARG < 0 by decide), Prod.mk.injEq] at h
      exact absurd h.1 (by decide)

theorem heap_create_inv (heap₀ heap : Heap) (ptr end_ : Nat) (table : HeapTable)
    (hsize : u32 ((end_ : Int) - ptr) < 0x80000000) (h : heap_create heap₀ ptr end_ table = (0, heap)) :
    HeapInv ⟨heap, []⟩ := by
  obtain ⟨htotal, rfl⟩ := heap_create_spec heap₀ heap ptr end_ table h
  refine ⟨?_, by simp, by simp⟩
  show table.total * PEACHOS_HEAP_BLOCK_SIZE < 0x80000000
  rw [htotal]
  exact Nat.lt_of_le_of_lt (Nat.div_mul_le_self _ _) hsize

/-! ## Safe runs -/

/-- The heap ends below 4 GiB, each allocation is large enough and starts in the table, and no entry behind the table
was written. -/
structure SafeInv (s : HeapState) : Prop extends HeapInv s where
  fits : s.heap.saddr + s.heap.table.total * PEACHOS_HEAP_BLOCK_SIZE < 2 ^ 32
  lt : ∀ a ∈ s.out, a.block s.heap.saddr < s.heap.table.total
  covers : ∀ a ∈ s.out, a.size ≤ a.blocks * PEACHOS_HEAP_BLOCK_SIZE
  written : ∀ i ∈ s.heap.table.written, i < s.heap.table.total

theorem safe_of_inv (h : SafeInv s) : s.Safe := by
  refine ⟨?_, fun a ha => (h.held a ha).inside, h.covers, h.apart, h.written⟩
  intro a ha
  have hptr := (h.held a ha).ptr
  have hend := Nat.mul_le_mul_right PEACHOS_HEAP_BLOCK_SIZE (Nat.le_of_lt (h.lt a ha))
  have hfits := h.fits
  rwa [u32_natCast, Nat.mod_eq_of_lt (by omega)] at hptr

theorem written_frame (r n : Nat) (hc : table.Changes table' r n) (hr : r + n ≤ table.total)
    (h : ∀ i ∈ table.written, i < table.total) : ∀ i ∈ table'.written, i < table'.total := by
  intro i hi
  rw [hc.total]
  rcases hc.written i hi with hi | hi
  · exact h i hi
  · omega

/-! ## `heap_malloc` -/

theorem heap_malloc_spec (s : HeapState) (size : UInt32) (h : s.Served (.malloc size)) :
    heap_malloc s.heap size.toNat = (0, s.heap) ∨
    ∃ r, r < s.heap.table.total ∧ r + heap_total_blocks size.toNat ≤ s.heap.table.total ∧
      AllIn s.heap.table.Free r (heap_total_blocks size.toNat) ∧
      heap_total_blocks size.toNat = HeapState.needed size.toNat ∧
      size.toNat ≤ heap_total_blocks size.toNat * PEACHOS_HEAP_BLOCK_SIZE ∧
      heap_malloc s.heap size.toNat = (heap_block_to_address s.heap r,
        heap_mark_blocks_taken s.heap r (heap_total_blocks size.toNat)) := by
  have hlt := size.toNat_lt
  unfold heap_malloc heap_malloc_blocks
  rcases heap_get_start_block_spec s.heap (heap_total_blocks size.toNat) with
    ⟨r, heq, hk, hr, hfree, -⟩ | ⟨r, heq, hr, htail, hnone⟩ | ⟨heq, -⟩
  · rw [heq]
    have hle : size.toNat ≤ 2 ^ 32 - PEACHOS_HEAP_BLOCK_SIZE := by
      by_contra hgt
      have := heap_total_blocks_of_gt size.toNat (by omega) hlt
      omega
    obtain ⟨hneed, hcover⟩ := heap_total_blocks_of_le size.toNat hle
    refine Or.inr ⟨r, by omega, hr, hfree, hneed, hcover, ?_⟩
    dsimp only
    rw [if_neg (by omega), Int.toNat_natCast]
  · rw [heq]
    -- Only a request of zero bytes can end here: any other one would have been found.
    rcases h with h | h | ⟨hle, hrun⟩
    · omega
    · exact absurd (htail _ (by omega) (by omega)) h
    · obtain ⟨hneed, hcover⟩ := heap_total_blocks_of_le size.toNat hle
      have hzero : heap_total_blocks size.toNat = 0 := by
        by_contra hne
        rw [← hneed] at hrun
        exact hnone (by omega) hrun
      refine Or.inr ⟨r, hr, by omega, fun i h1 h2 => by omega, hneed, hcover, ?_⟩
      dsimp only
      rw [if_neg (by omega), Int.toNat_natCast]
  · rw [heq]
    exact Or.inl rfl

theorem safeInv_malloc (h : SafeInv s) (size : UInt32) (hserved : s.Served (.malloc size)) :
    SafeInv (s.step (.malloc size)) := by
  rcases heap_malloc_spec s size hserved with heq | ⟨r, hr, hrk, hfree, -, hcover, heq⟩
  · simp only [HeapState.step, HeapState.next, heq]
    exact h
  simp only [HeapState.step, HeapState.next, heq]
  obtain ⟨hs, hc, -⟩ := heap_mark_blocks_taken_spec s.heap r (heap_total_blocks size.toNat)
  refine ⟨heapInv_taken h.toHeapInv size.toNat r hrk hfree _, ?_, ?_, ?_, written_frame r _ hc hrk h.written⟩
  · dsimp only
    rw [hs, hc.total]
    exact h.fits
  · intro a ha
    dsimp only
    rw [hs, hc.total]
    rcases mem_kept ha with ha | rfl
    · exact h.lt a ha
    · rw [heap_block_to_address_eq, alloc_block _ _ _ (block_small h.small hrk)]
      exact hr
  · intro a ha
    rcases mem_kept ha with ha | rfl
    · exact h.covers a ha
    · exact hcover

/-! ## `heap_free` -/

theorem heap_free_spec (h : SafeInv s) (a : Alloc) (ha : a ∈ s.out)
    (hserved : a.size ≠ 0 ∨ s.heap.table.entries (a.block s.heap.saddr) = HEAP_BLOCK_TABLE_ENTRY_FREE) :
    s.heap.table.Frame (heap_free s.heap a.ptr).table (a.block s.heap.saddr) a.blocks ∧
      ∀ i ∈ (heap_free s.heap a.ptr).table.written, i < (heap_free s.heap a.ptr).table.total := by
  have hlt := h.lt a ha
  rcases Nat.eq_zero_or_pos a.blocks with h0 | hpos
  · -- A request of zero bytes took no block.
    have hcover := h.covers a ha
    rw [h0, Nat.zero_mul] at hcover
    have hfree := hserved.resolve_left (by omega)
    rw [heap_free_table s.heap a h.small (h.held a ha), heap_mark_blocks_free_loop_of_free _ _ (by omega) hfree, h0]
    refine ⟨⟨rfl, fun i _ => ?_⟩, fun i hi => ?_⟩
    · rw [set_entries]
      split
      · rename_i hi
        rw [hi, hfree]
      · rfl
    · rcases List.mem_cons.mp hi with rfl | hi
      · exact hlt
      · exact h.written i hi
  · obtain ⟨hc, -⟩ := heap_free_held s.heap a h.small (h.held a ha) hpos
    exact ⟨hc.toFrame, written_frame _ _ hc (h.held a ha).inside h.written⟩

theorem safeInv_free (h : SafeInv s) (k : Nat) (hserved : s.Served (.free k)) :
    SafeInv (s.step (.free k)) := by
  cases ha : s.out[k]? with
  | none =>
    simp only [HeapState.step, HeapState.next, ha]
    exact h
  | some a =>
    obtain ⟨hf, hw⟩ := heap_free_spec h a (List.mem_of_getElem? ha) (hserved a ha)
    have hs : (heap_free s.heap a.ptr).saddr = s.heap.saddr := rfl
    simp only [HeapState.step, HeapState.next, ha]
    refine ⟨heapInv_freed h.toHeapInv k a ha hf, ?_, ?_, fun b hb => h.covers b (List.mem_of_mem_eraseIdx hb), hw⟩
    · rw [hs, hf.total]
      exact h.fits
    · intro b hb
      rw [hs, hf.total]
      exact h.lt b (List.mem_of_mem_eraseIdx hb)

/-! ## Runs -/

theorem safeInv_step (h : SafeInv s) (c : HeapCall) (hserved : s.Served c) : SafeInv (s.step c) := by
  cases c with
  | malloc size => exact safeInv_malloc h size hserved
  | free k => exact safeInv_free h k hserved

theorem safeCall_of_served (h : SafeInv s) (c : HeapCall) (hserved : s.Served c) : s.SafeCall c := by
  refine ⟨safe_of_inv (safeInv_step h c hserved), ?_⟩
  rintro size rfl hnone
  rcases heap_malloc_spec s size hserved with heq | ⟨r, -, hrk, hfree, hneed, -, -⟩
  · rw [heq]
  · rw [← hneed] at hnone
    exact absurd ⟨r, hrk, hfree⟩ hnone

/-- The invariant of runs without requests of zero bytes, in a heap that does not start at address 0. -/
structure PlainInv (s : HeapState) : Prop extends SafeInv s where
  saddr : s.heap.saddr ≠ 0
  sizes : ∀ a ∈ s.out, a.size ≠ 0

theorem step_saddr (s : HeapState) (c : HeapCall) : (s.step c).heap.saddr = s.heap.saddr := by
  cases c with
  | malloc size =>
    simp only [HeapState.step, HeapState.next, heap_malloc, heap_malloc_blocks]
    split <;> rfl
  | free k =>
    simp only [HeapState.step, HeapState.next]
    split <;> rfl

theorem step_sizes (s : HeapState) (h : ∀ a ∈ s.out, a.size ≠ 0) (c : HeapCall) (hc : c ≠ .malloc 0) :
    ∀ a ∈ (s.step c).out, a.size ≠ 0 := by
  cases c with
  | malloc size =>
    intro a ha
    rcases mem_kept ha with ha | rfl
    · exact h a ha
    · exact fun h0 => hc (by rw [UInt32.toNat_inj.mp (show size.toNat = (0 : UInt32).toNat from h0)])
  | free k =>
    intro a ha
    simp only [HeapState.step, HeapState.next] at ha
    split at ha
    · exact h a (List.mem_of_mem_eraseIdx ha)
    · exact h a ha

theorem not_safeCall_of_not_served (h : PlainInv s) (c : HeapCall) (hc : c ≠ .malloc 0)
    (hserved : ¬ s.Served c) : ¬ s.SafeCall c := by
  cases c with
  | free k =>
    exact absurd (fun a ha => Or.inl (h.sizes a (List.mem_of_getElem? ha))) hserved
  | malloc size =>
    simp only [HeapState.Served, not_or, not_not, not_and] at hserved
    obtain ⟨hpos, hlast, hrun⟩ := hserved
    have hlt := size.toNat_lt
    have hsize : size.toNat ≠ 0 := fun h0 =>
      hc (by rw [UInt32.toNat_inj.mp (show size.toNat = (0 : UInt32).toNat from h0)])
    rintro ⟨hsafe, hnull⟩
    have hfits := h.fits
    have hsaddr := h.saddr
    have hstart := heap_get_start_block_spec s.heap (heap_total_blocks size.toNat)
    by_cases hle : size.toNat ≤ 2 ^ 32 - PEACHOS_HEAP_BLOCK_SIZE
    · -- The request does not fit, and gets an address that is not null.
      obtain ⟨hneed, -⟩ := heap_total_blocks_of_le size.toNat hle
      have hnull := hnull size rfl (hrun hle)
      unfold heap_malloc heap_malloc_blocks at hnull
      rcases hstart with ⟨r, heq, hk, hr, hfree, -⟩ | ⟨r, heq, hr, -, -⟩ | ⟨heq, hno⟩
      · rw [hneed] at hr hfree
        exact hrun hle ⟨r, hr, hfree⟩
      · have hend := Nat.mul_le_mul_right PEACHOS_HEAP_BLOCK_SIZE (Nat.le_of_lt hr)
        rw [heq] at hnull
        dsimp only at hnull
        rw [if_neg (by omega)] at hnull
        dsimp only at hnull
        rw [heap_block_to_address_spec s.heap r (by omega)] at hnull
        omega
      · exact hno.1.elim hpos (fun hno => hno hlast)
    · -- The rounded size is zero, and the allocation has no block.
      have hzero := heap_total_blocks_of_gt size.toNat (by omega) hlt
      rcases hstart with ⟨r, heq, hk, -⟩ | ⟨r, heq, hr, -, -⟩ | ⟨heq, hno⟩
      · omega
      · have hend := Nat.mul_le_mul_right PEACHOS_HEAP_BLOCK_SIZE (Nat.le_of_lt hr)
        have haddr : (heap_malloc s.heap size.toNat).1 ≠ 0 := by
          unfold heap_malloc heap_malloc_blocks
          rw [heq]
          dsimp only
          rw [if_neg (by omega)]
          dsimp only
          rw [heap_block_to_address_spec s.heap r (by omega)]
          omega
        have hcovers := hsafe.covers ⟨(heap_malloc s.heap size.toNat).1, size.toNat⟩ (by
          simp only [HeapState.step, HeapState.next, haddr, ne_eq, not_false_eq_true, decide_true, if_true]
          exact List.mem_append_right _ (List.mem_singleton_self _))
        unfold Alloc.blocks at hcovers
        dsimp only at hcovers
        rw [hzero, Nat.zero_mul] at hcovers
        omega
      · exact hno.1.elim hpos (fun hno => hno hlast)

theorem heap_create_safeInv (heap₀ heap : Heap) (ptr end_ : Nat) (table : HeapTable) (hle : ptr ≤ end_)
    (hend : end_ < 2 ^ 32) (hsize : end_ - ptr < 0x80000000) (hw : table.written = [])
    (h : heap_create heap₀ ptr end_ table = (0, heap)) : heap.saddr = ptr ∧ SafeInv ⟨heap, []⟩ := by
  have hu : u32 ((end_ : Int) - ptr) = end_ - ptr := by
    rw [← Int.ofNat_sub hle, u32_natCast, Nat.mod_eq_of_lt (by omega)]
  have hinv := heap_create_inv heap₀ heap ptr end_ table (by rwa [hu]) h
  obtain ⟨htotal, rfl⟩ := heap_create_spec heap₀ heap ptr end_ table h
  have hmul : table.total * PEACHOS_HEAP_BLOCK_SIZE ≤ end_ - ptr := by
    rw [htotal, hu]
    exact Nat.div_mul_le_self _ _
  refine ⟨rfl, hinv, ?_, by simp, by simp, fun i hi => ?_⟩
  · show ptr + table.total * PEACHOS_HEAP_BLOCK_SIZE < 2 ^ 32
    omega
  · simpa [HeapTable.clear, hw] using hi

/-- In a run whose calls are all served, every state is safe and every request that does not fit gets
null. Apart from requests of zero bytes and a heap at address 0, no other run has this property. -/
theorem heap_runs_safe (heap₀ heap : Heap) (ptr end_ : Nat) (table : HeapTable) (hle : ptr ≤ end_)
    (hend : end_ < 2 ^ 32) (hsize : end_ - ptr < 0x80000000) (hw : table.written = [])
    (hcreate : heap_create heap₀ ptr end_ table = (0, heap)) (calls : List HeapCall) :
    HeapState.Safe ⟨heap, []⟩ ∧
      (Along HeapState.step HeapState.Served calls ⟨heap, []⟩ →
        Along HeapState.step HeapState.SafeCall calls ⟨heap, []⟩) ∧
      (ptr ≠ 0 → (∀ c ∈ calls, c ≠ .malloc 0) →
        Along HeapState.step HeapState.SafeCall calls ⟨heap, []⟩ →
        Along HeapState.step HeapState.Served calls ⟨heap, []⟩) := by
  obtain ⟨hsaddr, hinv⟩ := heap_create_safeInv heap₀ heap ptr end_ table hle hend hsize hw hcreate
  refine ⟨safe_of_inv hinv, fun h => ?_, fun hptr hnonzero h => ?_⟩
  · exact along_of_inv SafeInv _ _ (fun s c hs hc =>
      ⟨safeInv_step hs c hc, safeCall_of_served hs c hc⟩) calls _ hinv h
  · refine (along_iff PlainInv (fun _ c => c ≠ .malloc 0) _ _ (fun s c hs hok hc => ?_)
      (fun s c hs hok hc => not_safeCall_of_not_served hs c hok hc) calls _
      (along_of_forall _ calls hnonzero _) ?_).mp h
    · refine ⟨⟨safeInv_step hs.toSafeInv c hc, ?_, step_sizes s hs.sizes c hok⟩,
        safeCall_of_served hs.toSafeInv c hc⟩
      rw [step_saddr]
      exact hs.saddr
    · exact ⟨hinv, by rw [hsaddr]; exact hptr, fun a ha => by cases ha⟩

end Blocks

/-- A table of four entries, with memory that is not zero. -/
def smallTable : HeapTable := { entries := fun _ => 0xFF, below := fun _ => 0, total := 4, written := [] }

/-- A heap of four blocks. -/
def smallHeap : Heap := (heap_create ⟨smallTable, 0⟩ 0x1000000 0x1004000 smallTable).2

namespace Blocks

theorem smallHeap_create :
    heap_create ⟨smallTable, 0⟩ 0x1000000 0x1004000 smallTable = (0, smallHeap) := rfl

theorem smallHeap_safe :
    Along HeapState.step HeapState.SafeCall [.malloc 5000, .free 0] ⟨smallHeap, []⟩ := by
  have hfree : ∀ i < 2, smallHeap.table.Free i := by decide +kernel
  have hout : ∀ a ∈ ((⟨smallHeap, []⟩ : HeapState).step (.malloc 5000)).out, a.size ≠ 0 := by
    decide +kernel
  refine (heap_runs_safe ⟨smallTable, 0⟩ smallHeap 0x1000000 0x1004000 smallTable (by decide)
    (by decide) (by decide) rfl smallHeap_create [.malloc 5000, .free 0]).2.1 ⟨?_, ?_, trivial⟩
  · have hneed : HeapState.needed (5000 : UInt32).toNat = 2 := by decide
    exact Or.inr (Or.inr ⟨by decide, 0, by decide, fun i _ hi => hfree i (by omega)⟩)
  · exact fun a ha => Or.inl (hout a (List.mem_of_getElem? ha))

/-- With two blocks left, a request for three of them gets an address, and entry 4 is written. -/
theorem smallHeap_overrun :
    (heap_malloc ((⟨smallHeap, []⟩ : HeapState).step (.malloc 8192)).heap 12288).1 = 0x1002000 ∧
    ¬ Along HeapState.step HeapState.SafeCall [.malloc 8192, .malloc 12288] ⟨smallHeap, []⟩ := by
  refine ⟨by decide +kernel, ?_⟩
  rintro ⟨-, ⟨hsafe, -⟩, -⟩
  exact absurd (hsafe.written 4 (by decide +kernel)) (by decide +kernel)

end Blocks

end PeachOS
