import PeachOS.Heap.FirstFit
import PeachOS.Lib.Runs

/-!
# The outstanding allocations of a table

A table comes from another one by allocations that have not been freed. Giving back what was taken gives the first
table. Over a table of free blocks these are all the outstanding allocations, and the table says which ones there are.
-/

open PeachOS.Lib

namespace PeachOS

/-- The entry of block `j` of an allocation of `n` blocks. -/
def blockMark (n j : Nat) : UInt8 :=
  HEAP_BLOCK_TABLE_ENTRY_TAKEN ||| (if j = 0 then HEAP_BLOCK_IS_FIRST else 0) |||
    (if j + 1 < n then HEAP_BLOCK_HAS_NEXT else 0)

/-- Each of the runs was free in `base` and has been taken. Other blocks are as they were, or were taken and freed. -/
structure TakenOver (base table : HeapTable) (runs : List (Nat × Nat)) : Prop where
  total : table.total = base.total
  pos : ∀ r ∈ runs, 1 ≤ r.2
  inside : ∀ r ∈ runs, r.1 + r.2 ≤ base.total
  apart : AllApart runs
  taken : ∀ r ∈ runs, ∀ i, Covers r i → base.Free i ∧ table.entries i = blockMark r.2 (i - r.1)
  others : ∀ i < base.total, (∀ r ∈ runs, ¬ Covers r i) →
    table.entries i = base.entries i ∨ (base.Free i ∧ table.entries i = HEAP_BLOCK_TABLE_ENTRY_FREE)

namespace HeapTable

/-- Free blocks have the entry that freeing writes. -/
def Clean (table : HeapTable) : Prop :=
  ∀ i < table.total, table.Free i → table.entries i = HEAP_BLOCK_TABLE_ENTRY_FREE

/-- A table of free blocks. -/
def empty (total : Nat) : HeapTable := ⟨fun _ => HEAP_BLOCK_TABLE_ENTRY_FREE, fun _ => 0, total, []⟩

end HeapTable

/-- The allocations that have not been freed, each with its first block and the number of its blocks. -/
def Outstanding (table : HeapTable) (runs : List (Nat × Nat)) : Prop :=
  TakenOver (HeapTable.empty table.total) table runs

/-- The runs of the allocations that are left. -/
def HeapState.runs (s : HeapState) : List (Nat × Nat) :=
  s.out.map fun a => (a.block s.heap.saddr, HeapState.needed a.size)

namespace Blocks

variable {base table : HeapTable} {heap : Heap} {runs runs' : List (Nat × Nat)}

/-! ## What the entries say -/

theorem blockMark_taken (n j : Nat) : heap_get_entry_type (blockMark n j) ≠ HEAP_BLOCK_TABLE_ENTRY_FREE := by
  unfold blockMark
  split <;> split <;> decide

theorem blockMark_last (n j : Nat) : blockMark n j &&& HEAP_BLOCK_HAS_NEXT = 0 ↔ ¬ j + 1 < n := by
  unfold blockMark
  split <;> split <;> simp_all <;> decide

theorem blockMark_first (n j : Nat) : blockMark n j &&& HEAP_BLOCK_IS_FIRST ≠ 0 ↔ j = 0 := by
  unfold blockMark
  split <;> split <;> simp_all <;> decide

theorem free_of_entry (i : Nat) (h : table.entries i = HEAP_BLOCK_TABLE_ENTRY_FREE) : table.Free i := by
  unfold HeapTable.Free
  rw [h]
  decide

theorem empty_free (total i : Nat) : (HeapTable.empty total).Free i := free_of_entry i rfl

theorem takenOver_refl (table : HeapTable) : TakenOver table table [] := by
  refine ⟨rfl, ?_, ?_, List.Pairwise.nil, ?_, fun i _ _ => Or.inl rfl⟩ <;> simp

theorem takenOver_free_iff (h : TakenOver base table runs) (i : Nat) (hi : i < base.total) :
    table.Free i ↔ base.Free i ∧ ∀ r ∈ runs, ¬ Covers r i := by
  constructor
  · intro hfree
    have hnone : ∀ r ∈ runs, ¬ Covers r i := by
      intro r hr hcover
      unfold HeapTable.Free at hfree
      rw [(h.taken r hr i hcover).2] at hfree
      exact blockMark_taken _ _ hfree
    rcases h.others i hi hnone with heq | ⟨hbase, -⟩
    · unfold HeapTable.Free at hfree ⊢
      rw [heq] at hfree
      exact ⟨hfree, hnone⟩
    · exact ⟨hbase, hnone⟩
  · rintro ⟨hbase, hnone⟩
    rcases h.others i hi hnone with heq | ⟨-, heq⟩
    · unfold HeapTable.Free at hbase ⊢
      rwa [heq]
    · exact free_of_entry i heq

theorem takenOver_marked (h : TakenOver base table runs) (r : Nat × Nat) (hr : r ∈ runs) : table.Marked r.1 r.2 := by
  intro i h1 h2
  unfold HeapTable.Free
  rw [(h.taken r hr i ⟨h1, h2⟩).2, blockMark_last]
  exact ⟨blockMark_taken _ _, by omega⟩

theorem takenOver_perm (h : TakenOver base table runs) (hperm : runs.Perm runs') : TakenOver base table runs' := by
  refine ⟨h.total, ?_, ?_, allApart_perm h.apart hperm, ?_, ?_⟩
  · intro r hr
    exact h.pos r (hperm.mem_iff.mpr hr)
  · intro r hr
    exact h.inside r (hperm.mem_iff.mpr hr)
  · intro r hr
    exact h.taken r (hperm.mem_iff.mpr hr)
  · intro i hi hnone
    exact h.others i hi fun r hr => hnone r (hperm.mem_iff.mp hr)

theorem takenOver_nil (h : TakenOver base table []) (hclean : base.Clean) (i : Nat) (hi : i < base.total) :
    table.entries i = base.entries i := by
  rcases h.others i hi (by simp) with heq | ⟨hfree, heq⟩
  · exact heq
  · rw [heq, hclean i hi hfree]

theorem takenOver_blocks {table' : HeapTable} (h : TakenOver base table runs) (new blocks : List Nat)
    (hnew : TakenOver base table' (new.map (·, 1) ++ runs)) (hnodup : blocks.Nodup) (hlen : new.length ≤ blocks.length)
    (hfresh : ∀ i ∈ blocks, i < base.total ∧ table.Free i ∧ ¬ table'.Free i) :
    TakenOver base table' (blocks.map (·, 1) ++ runs) := by
  have hsub : blocks ⊆ new := by
    intro i hi
    obtain ⟨hlt, hfree, hused⟩ := hfresh i hi
    obtain ⟨hbase, hnone⟩ := (takenOver_free_iff h i hlt).mp hfree
    by_contra hni
    apply hused
    rw [takenOver_free_iff hnew i hlt]
    refine ⟨hbase, ?_⟩
    intro r hr
    rcases List.mem_append.mp hr with hr | hr
    · obtain ⟨j, hj, rfl⟩ := List.mem_map.mp hr
      intro hcover
      exact hni ((covers_one j i).mp hcover ▸ hj)
    · exact hnone r hr
  have hperm : blocks.Perm new := (List.subperm_of_subset hnodup hsub).perm_of_length_le hlen
  exact takenOver_perm hnew ((hperm.symm.map _).append_right runs)

/-! ## The outstanding allocations -/

theorem outstanding_clean (h : Outstanding table runs) : table.Clean := by
  intro i hi hfree
  have hnone := ((takenOver_free_iff h i hi).mp hfree).2
  rcases h.others i hi hnone with heq | ⟨-, heq⟩
  · exact heq
  · exact heq

theorem outstanding_same {table' : HeapTable} (h : Outstanding table runs) (htotal : table'.total = table.total)
    (hsame : ∀ i < table.total, table'.entries i = table.entries i) : Outstanding table' runs := by
  unfold Outstanding
  rw [htotal]
  refine ⟨htotal, h.pos, h.inside, h.apart, ?_, ?_⟩
  · intro r hr i hi
    have hin := h.inside r hr
    have hlt := hi.2
    rw [hsame i (Nat.lt_of_lt_of_le hlt hin)]
    exact h.taken r hr i hi
  · intro i hi hnone
    rw [hsame i hi]
    exact h.others i hi hnone

theorem outstanding_mem (h : Outstanding table runs) (h' : Outstanding table runs') (r : Nat × Nat) (hr : r ∈ runs) :
    r ∈ runs' := by
  have hpos := h.pos r hr
  have hin : r.1 + r.2 ≤ table.total := h.inside r hr
  have hfirst := (h.taken r hr r.1 ⟨Nat.le_refl _, by omega⟩).2
  obtain ⟨s, hs, hcover⟩ : ∃ s ∈ runs', Covers s r.1 := by
    by_contra hnone
    have hlt : r.1 < table.total := by omega
    have hfree := (takenOver_free_iff h' r.1 hlt).mpr ⟨empty_free _ _, fun s hs hc => hnone ⟨s, hs, hc⟩⟩
    exact ((takenOver_free_iff h r.1 hlt).mp hfree).2 r hr ⟨Nat.le_refl _, by omega⟩
  -- Both start at this block.
  have hstart : r.1 - s.1 = 0 := by
    rw [← blockMark_first s.2, ← (h'.taken s hs r.1 hcover).2, hfirst, Nat.sub_self, blockMark_first]
  have hsame : s.1 = r.1 := by
    have := hcover.1
    omega
  -- The first block without the mark that one more follows is the last one of both.
  have hlast : ∀ j, j < r.2 → j < s.2 → (j + 1 < r.2 ↔ j + 1 < s.2) := by
    intro j h1 h2
    have h3 := (h.taken r hr (r.1 + j) ⟨by omega, by omega⟩).2
    have h4 := (h'.taken s hs (r.1 + j) ⟨by omega, by omega⟩).2
    rw [Nat.add_sub_cancel_left] at h3
    rw [hsame, Nat.add_sub_cancel_left, h3] at h4
    have h5 := blockMark_last r.2 j
    rw [h4, blockMark_last] at h5
    exact (not_iff_not.mp h5).symm
  have hlen : s.2 = r.2 := by
    have hspos := h'.pos s hs
    have h1 := hlast (r.2 - 1)
    have h2 := hlast (s.2 - 1)
    omega
  rwa [show r = s from Prod.ext hsame.symm hlen.symm]

theorem outstanding_unique (h : Outstanding table runs) (h' : Outstanding table runs') : runs.Perm runs' := by
  apply (List.perm_ext_iff_of_nodup (allApart_nodup h.apart h.pos) (allApart_nodup h'.apart h'.pos)).mpr
  intro r
  exact ⟨outstanding_mem h h' r, outstanding_mem h' h r⟩

/-! ## Taking and giving back -/

theorem heap_mark_blocks_taken_loop_entries (e : Int) (g : Nat → UInt8) (n i : Nat) (table : HeapTable)
    (hg : ∀ j, i ≤ j → g (j + 1) = if (j : Int) ≠ e - 1 then HEAP_BLOCK_TABLE_ENTRY_TAKEN ||| HEAP_BLOCK_HAS_NEXT
      else HEAP_BLOCK_TABLE_ENTRY_TAKEN) (x : Nat) :
    (heap_mark_blocks_taken_loop e n i (g i) table).entries x =
      if i ≤ x ∧ x < i + n then g x else table.entries x := by
  induction n generalizing i table with
  | zero => rw [heap_mark_blocks_taken_loop, if_neg (by omega)]
  | succ n ih =>
    rw [heap_mark_blocks_taken_loop, ← hg i (Nat.le_refl i), ih (i + 1) _ fun j hj => hg j (by omega), set_entries]
    by_cases hx : x = i
    · subst hx
      rw [if_neg (by omega), if_pos rfl, if_pos (by omega)]
    · rw [if_neg hx]
      by_cases hin : i + 1 ≤ x ∧ x < i + 1 + n
      · rw [if_pos hin, if_pos (by omega)]
      · rw [if_neg hin, if_neg (by omega)]

theorem heap_mark_blocks_taken_entries (heap : Heap) (s n : Nat) (x : Nat) (hx : Covers (s, n) x) :
    (heap_mark_blocks_taken heap s n).table.entries x = blockMark n (x - s) := by
  have hlt := hx.2
  have hle := hx.1
  dsimp only at hlt hle
  -- The entries as the loop goes on, which is past the last block too.
  have hloop := heap_mark_blocks_taken_loop_entries (s + n - 1)
    (fun x => if x = s then
        (if n > 1 then HEAP_BLOCK_TABLE_ENTRY_TAKEN ||| HEAP_BLOCK_IS_FIRST ||| HEAP_BLOCK_HAS_NEXT
          else HEAP_BLOCK_TABLE_ENTRY_TAKEN ||| HEAP_BLOCK_IS_FIRST)
      else if (x : Int) ≠ s + n - 1 then HEAP_BLOCK_TABLE_ENTRY_TAKEN ||| HEAP_BLOCK_HAS_NEXT
      else HEAP_BLOCK_TABLE_ENTRY_TAKEN) n s heap.table ?_ x
  · rw [if_pos rfl] at hloop
    refine hloop.trans ?_
    rw [if_pos ⟨hle, hlt⟩]
    unfold blockMark
    by_cases h0 : x = s
    · rw [if_pos h0, if_pos (show x - s = 0 by omega)]
      split
      · rw [if_pos (by omega)]
      · rw [if_neg (by omega)]
        rfl
    · rw [if_neg h0, if_neg (show ¬ x - s = 0 by omega)]
      split
      · rw [if_pos (by omega)]
        rfl
      · rw [if_neg (by omega)]
        rfl
  · intro j hj
    rw [if_neg (by omega)]
    have hiff : ((j + 1 : Nat) : Int) ≠ s + n - 1 ↔ (j : Int) ≠ s + n - 1 - 1 := by omega
    simp only [hiff]

theorem takenOver_take (h : TakenOver base heap.table runs) (s n : Nat) (hn : 1 ≤ n) (hin : s + n ≤ heap.table.total)
    (hfree : AllIn heap.table.Free s n) : TakenOver base (heap_mark_blocks_taken heap s n).table ((s, n) :: runs) := by
  obtain ⟨-, hc, -⟩ := heap_mark_blocks_taken_spec heap s n
  have htotal := h.total
  have hfresh : ∀ i, Covers (s, n) i → base.Free i ∧ ∀ r ∈ runs, ¬ Covers r i := by
    intro i hi
    have hlt := hi.2
    dsimp only at hlt
    exact (takenOver_free_iff h i (by omega)).mp (hfree i hi.1 hi.2)
  refine ⟨hc.total.trans htotal, ?_, ?_, ?_, ?_, ?_⟩
  · intro r hr
    rcases List.mem_cons.mp hr with rfl | hr
    · exact hn
    · exact h.pos r hr
  · intro r hr
    rcases List.mem_cons.mp hr with rfl | hr
    · rwa [← htotal]
    · exact h.inside r hr
  · refine List.pairwise_cons.mpr ⟨?_, h.apart⟩
    intro r hr i h1 h2 hcover
    exact (hfresh i ⟨h1, h2⟩).2 r hr hcover
  · intro r hr i hi
    rcases List.mem_cons.mp hr with rfl | hr
    · exact ⟨(hfresh i hi).1, heap_mark_blocks_taken_entries heap s n i hi⟩
    · rw [hc.frame i fun hin => (hfresh i hin).2 r hr hi]
      exact h.taken r hr i hi
  · intro i hi hnone
    rw [hc.frame i (hnone _ List.mem_cons_self)]
    exact h.others i hi fun r hr => hnone r (List.mem_cons_of_mem _ hr)

theorem takenOver_give (s n : Nat) (h : TakenOver base heap.table ((s, n) :: runs)) :
    TakenOver base (heap_mark_blocks_free heap s).table runs := by
  have hn := h.pos (s, n) List.mem_cons_self
  have hin := h.inside (s, n) List.mem_cons_self
  have hmarked := takenOver_marked h (s, n) List.mem_cons_self
  have htaken := h.taken (s, n) List.mem_cons_self
  obtain ⟨hapart, hrest⟩ := List.pairwise_cons.mp h.apart
  have htotal := h.total
  dsimp only at hn hin hmarked hapart
  rw [heap_mark_blocks_free_block]
  obtain ⟨hc, hfree⟩ := heap_mark_blocks_free_loop_spec n (heap.table.total - s) s hn (by omega) hmarked
  refine ⟨hc.total.trans htotal, fun r hr => h.pos r (List.mem_cons_of_mem _ hr),
    fun r hr => h.inside r (List.mem_cons_of_mem _ hr), hrest, ?_, ?_⟩
  · intro r hr i hi
    dsimp only
    rw [hc.frame i fun hin => hapart r hr i hin.1 hin.2 hi]
    exact h.taken r (List.mem_cons_of_mem _ hr) i hi
  · intro i hi hnone
    dsimp only
    by_cases hcover : Covers (s, n) i
    · exact Or.inr ⟨(htaken i hcover).1, hfree i hcover.1 hcover.2⟩
    · rw [hc.frame i hcover]
      apply h.others i hi
      intro r hr
      rcases List.mem_cons.mp hr with rfl | hr
      · exact hcover
      · exact hnone r hr

/-! ## Every table that a heap comes to -/

variable {s : HeapState}

theorem heap_create_outstanding (heap₀ heap : Heap) (ptr end_ : Nat) (table : HeapTable)
    (h : heap_create heap₀ ptr end_ table = (0, heap)) : Outstanding heap.table [] := by
  obtain ⟨-, rfl⟩ := heap_create_spec heap₀ heap ptr end_ table h
  have hempty : Outstanding (HeapTable.empty table.total) [] := takenOver_refl _
  refine @outstanding_same _ _ table.clear hempty rfl ?_
  intro i hi
  exact if_pos hi

theorem serve_outstanding (h : FitInv s) (hout : Outstanding s.heap.table s.runs) (c : HeapCall) (hfit : s.Fits c) :
    Outstanding (s.serve c).heap.table (s.serve c).runs := by
  unfold Outstanding at hout ⊢
  cases c with
  | malloc size =>
    obtain ⟨h1, h2, hrun⟩ := hfit
    obtain ⟨b, hlow, heq⟩ := heap_malloc_fits s.heap size.toNat h1 h2 hrun
    have hblock := alloc_block s.heap.saddr b size.toNat (block_small h.small hlow.inside)
    unfold PEACHOS_HEAP_BLOCK_SIZE at hblock
    have htake := takenOver_take hout b _ (needed_pos size.toNat h1) hlow.inside hlow.free
    unfold HeapState.runs HeapState.serve HeapState.next
    dsimp only
    rw [heq, if_pos rfl, List.map_append, List.map_singleton]
    dsimp only
    rw [(heap_mark_blocks_taken_spec s.heap b _).1, hblock, (heap_mark_blocks_taken_spec s.heap b _).2.1.total]
    exact takenOver_perm htake (List.perm_append_singleton _ _).symm
  | free k =>
    simp only [HeapState.serve, HeapState.next]
    cases hk : s.out[k]? with
    | none => exact hout
    | some a =>
      have ha := h.held a (List.mem_of_getElem? hk)
      have hgive : TakenOver (HeapTable.empty s.heap.table.total) s.heap.table
          ((a.block s.heap.saddr, HeapState.needed a.size) ::
            (s.out.eraseIdx k).map fun a => (a.block s.heap.saddr, HeapState.needed a.size)) := by
        apply takenOver_perm hout
        obtain ⟨hlt, heq⟩ := List.getElem?_eq_some_iff.mp hk
        rw [← heq]
        exact ((List.getElem_cons_eraseIdx_perm hlt).map _).symm
      have hblock := address_to_block s.heap (a.block s.heap.saddr) (block_small h.small ha.inside)
      rw [← ha.ptr] at hblock
      have hdone := takenOver_give _ _ hgive
      unfold heap_free HeapState.runs
      dsimp only
      rw [hblock, show (heap_mark_blocks_free s.heap (a.block s.heap.saddr)).table.total = s.heap.table.total from
        hdone.total]
      exact hdone

/-- The table is laid out in the allocations that are left, after every run whose requests all find room. -/
theorem run_outstanding (heap₀ heap : Heap) (ptr end_ : Nat) (table : HeapTable)
    (hsize : u32 ((end_ : Int) - ptr) < 2 ^ 31) (hcreate : heap_create heap₀ ptr end_ table = (0, heap))
    (calls : List HeapCall) (hfit : Along HeapState.serve HeapState.Fits calls ⟨heap, []⟩) :
    Outstanding (calls.foldl HeapState.serve ⟨heap, []⟩).heap.table (calls.foldl HeapState.serve ⟨heap, []⟩).runs := by
  refine (along_keeps (fun s => FitInv s ∧ Outstanding s.heap.table s.runs) HeapState.Fits ?_ calls _
    ⟨⟨heap_create_inv heap₀ heap ptr end_ table hsize hcreate, by simp⟩,
      heap_create_outstanding heap₀ heap ptr end_ table hcreate⟩ hfit).2
  rintro s c ⟨hs, hout⟩ hc
  refine ⟨?_, serve_outstanding hs hout c hc⟩
  cases c with
  | malloc size => exact (malloc_firstFit hs size hc).1
  | free k => exact (free_firstFit hs k).1

/-! ## Clean tables -/

theorem heap_malloc_clean (h : heap.table.Clean) (size : Nat) : (heap_malloc heap size).2.table.Clean := by
  unfold heap_malloc heap_malloc_blocks
  dsimp only
  split
  · exact h
  obtain ⟨-, hc, hm⟩ := heap_mark_blocks_taken_spec heap
    (heap_get_start_block heap (heap_total_blocks size)).toNat (heap_total_blocks size)
  intro i hi hfree
  dsimp only at hi hfree ⊢
  rw [hc.total] at hi
  by_cases hin : (heap_get_start_block heap (heap_total_blocks size)).toNat ≤ i ∧
      i < (heap_get_start_block heap (heap_total_blocks size)).toNat + heap_total_blocks size
  · exact absurd hfree (hm i hin.1 hin.2).1
  · unfold HeapTable.Free at hfree
    rw [hc.frame i hin] at hfree ⊢
    exact h i hi hfree

theorem heap_free_clean (h : heap.table.Clean) (ptr : Nat) : (heap_free heap ptr).table.Clean := by
  obtain ⟨htotal, hentries⟩ := heap_free_frees heap ptr
  intro i hi hfree
  rcases hentries i with heq | heq
  · unfold HeapTable.Free at hfree
    rw [heq] at hfree ⊢
    exact h i (htotal ▸ hi) hfree
  · exact heq

theorem run_clean (heap₀ heap : Heap) (ptr end_ : Nat) (table : HeapTable)
    (hcreate : heap_create heap₀ ptr end_ table = (0, heap)) (calls : List HeapCall) :
    (calls.foldl HeapState.serve ⟨heap, []⟩).heap.table.Clean := by
  refine foldl_keeps (fun s : HeapState => s.heap.table.Clean) ?_ calls _
    (outstanding_clean (heap_create_outstanding heap₀ heap ptr end_ table hcreate))
  intro s c hs
  cases c with
  | malloc size => exact heap_malloc_clean hs size.toNat
  | free k =>
    simp only [HeapState.serve, HeapState.next]
    split
    · exact heap_free_clean hs _
    · exact hs

end Blocks

end PeachOS
