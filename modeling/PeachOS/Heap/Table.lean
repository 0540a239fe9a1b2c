import PeachOS.Code.Heap
import PeachOS.Lib.Interval

/-!
# The heap table

What the search and the two marking loops do to the table.
-/

open PeachOS.Lib

namespace PeachOS

namespace HeapTable

def Free (table : HeapTable) (i : Nat) : Prop :=
  heap_get_entry_type (table.entries i) = HEAP_BLOCK_TABLE_ENTRY_FREE

instance (table : HeapTable) (i : Nat) : Decidable (table.Free i) := inferInstanceAs (Decidable (_ = _))

/-- The blocks of one allocation: all taken, and each but the last has the mark that one more follows. -/
def Marked (table : HeapTable) (s n : Nat) : Prop :=
  AllIn (fun i => ¬ table.Free i ∧
    (table.entries i &&& HEAP_BLOCK_HAS_NEXT = 0 ↔ i + 1 = s + n)) s n

/-- One of the `n` bytes before the table has no mark that one more block follows. -/
def StopsBelow (table : HeapTable) (n : Nat) : Prop := ∃ j < n, table.below j &&& HEAP_BLOCK_HAS_NEXT = 0

/-- A run of `n` free blocks. -/
def HasRun (table : HeapTable) (n : Nat) : Prop :=
  ∃ s, s + n ≤ table.total ∧ AllIn table.Free s n

/-- `table'` differs from `table` in the run of `n` blocks at `s` only. -/
structure Frame (table table' : HeapTable) (s n : Nat) : Prop where
  total : table'.total = table.total
  frame : ∀ i, ¬ (s ≤ i ∧ i < s + n) → table'.entries i = table.entries i

/-- Besides, no entry outside of the run was written. -/
structure Changes (table table' : HeapTable) (s n : Nat) : Prop extends Frame table table' s n where
  written : ∀ i ∈ table'.written, i ∈ table.written ∨ (s ≤ i ∧ i < s + n)

end HeapTable

namespace Blocks

variable {table : HeapTable} {heap : Heap}

/-! ## The search -/

theorem heap_get_start_block_loop_spec (k n i s : Nat) (h : Scan table.Free k i s) :
    (∃ r : Nat, heap_get_start_block_loop table k n i (i - s) (if s = i then -1 else (s : Int)) = r ∧
      1 ≤ k ∧ r + k ≤ i + n ∧ AllIn table.Free r k ∧ ∀ r' < r, ¬ AllIn table.Free r' k) ∨
    (∃ r : Nat, Scan table.Free k (i + n) r ∧
      heap_get_start_block_loop table k n i (i - s) (if s = i then -1 else (s : Int)) =
        if r = i + n then -1 else (r : Int)) := by
  induction n generalizing i s with
  | zero => exact Or.inr ⟨s, h, rfl⟩
  | succ n ih =>
    have hle := h.le
    rw [heap_get_start_block_loop]
    by_cases hfree : table.Free i
    · rw [if_neg (not_not.mpr (show heap_get_entry_type (table.entries i) = _ from hfree))]
      have hbs : (if (if s = i then -1 else (s : Int)) = -1 then (i : Int) else
          if s = i then -1 else (s : Int)) = s := by
        split <;> split at * <;> omega
      simp only [hbs]
      by_cases hk : i - s + 1 = k
      · rw [if_pos hk]
        refine Or.inl ⟨s, rfl, by omega, by omega, fun j h1 h2 => ?_,
          fun r' hr' => h.none (by omega) r' (by omega)⟩
        rcases Nat.eq_or_lt_of_le (show j ≤ i by omega) with rfl | hlt
        · exact hfree
        · exact h.run j h1 hlt
      · rw [if_neg hk]
        have hnext := ih (i + 1) s (scan_next h hfree (by omega))
        rw [if_neg (show ¬ s = i + 1 by omega), show i + 1 - s = i - s + 1 by omega,
          show i + 1 + n = i + (n + 1) by omega] at hnext
        exact hnext
    · rw [if_pos (show heap_get_entry_type (table.entries i) ≠ _ from hfree)]
      have hnext := ih (i + 1) (i + 1) (scan_stop h hfree)
      rw [if_pos rfl, Nat.sub_self, show i + 1 + n = i + (n + 1) by omega] at hnext
      exact hnext

/-- The first run of `k` free blocks, or the free blocks at the end of the table, or nothing. -/
theorem heap_get_start_block_spec (heap : Heap) (k : Nat) :
    (∃ r : Nat, heap_get_start_block heap k = r ∧ 1 ≤ k ∧ r + k ≤ heap.table.total ∧
      AllIn heap.table.Free r k ∧ ∀ r' < r, ¬ AllIn heap.table.Free r' k) ∨
    (∃ r : Nat, heap_get_start_block heap k = r ∧ r < heap.table.total ∧
      (∀ i, r ≤ i → i < heap.table.total → heap.table.Free i) ∧
      (1 ≤ k → ¬ heap.table.HasRun k)) ∨
    (heap_get_start_block heap k = -ENOMEM ∧
      (heap.table.total = 0 ∨ ¬ heap.table.Free (heap.table.total - 1)) ∧
      (1 ≤ k → ¬ heap.table.HasRun k)) := by
  unfold heap_get_start_block
  have hloop := heap_get_start_block_loop_spec k heap.table.total 0 0
    (scan_zero heap.table.Free k)
  rw [if_pos rfl, Nat.sub_self, Nat.zero_add] at hloop
  rcases hloop with ⟨r, heq, hrest⟩ | ⟨r, hscan, heq⟩
  · rw [heq]
    dsimp only
    rw [if_neg (by omega)]
    exact Or.inl ⟨r, rfl, hrest⟩
  · rw [heq]
    by_cases hr : r = heap.table.total
    · refine Or.inr (Or.inr ⟨by rw [if_pos hr]; rfl, ?_, ?_⟩)
      · rcases Nat.eq_zero_or_pos heap.table.total with h0 | hpos
        · exact Or.inl h0
        · refine Or.inr (scan_last (k := k) ?_)
          rw [show heap.table.total - 1 + 1 = heap.table.total by omega]
          rwa [hr] at hscan
      · rintro hk ⟨s, hs, hrun⟩
        exact hscan.none hk s hs hrun
    · have hle := hscan.le
      rw [if_neg hr]
      dsimp only
      rw [if_neg (by omega)]
      refine Or.inr (Or.inl ⟨r, rfl, by omega, hscan.run, ?_⟩)
      rintro hk ⟨s, hs, hrun⟩
      exact hscan.none hk s hs hrun

/-! ## Marking -/

theorem set_entries (i j : Nat) (entry : UInt8) :
    (table.set i entry).entries j = if j = i then entry else table.entries j := rfl

theorem changes_refl (table : HeapTable) (i : Nat) : table.Changes table i 0 :=
  ⟨⟨rfl, fun _ _ => rfl⟩, fun _ h => Or.inl h⟩

theorem changes_set {table' : HeapTable} (i n : Nat) (entry : UInt8)
    (h : (table.set i entry).Changes table' (i + 1) n) : table.Changes table' i (n + 1) := by
  refine ⟨⟨h.total, fun j hj => ?_⟩, fun j hj => ?_⟩
  · rw [h.frame j (by omega), set_entries, if_neg (by omega)]
  · rcases h.written j hj with hw | hw
    · rcases List.mem_cons.mp hw with rfl | hw
      · exact Or.inr ⟨Nat.le_refl j, by omega⟩
      · exact Or.inl hw
    · exact Or.inr ⟨by omega, by omega⟩

theorem heap_mark_blocks_taken_loop_spec (e n i : Nat) (entry : UInt8) (he : i + n = e + 1)
    (htaken : heap_get_entry_type entry ≠ HEAP_BLOCK_TABLE_ENTRY_FREE)
    (hnext : entry &&& HEAP_BLOCK_HAS_NEXT = 0 ↔ i = e) :
    table.Changes (heap_mark_blocks_taken_loop e n i entry table) i n ∧
      (heap_mark_blocks_taken_loop e n i entry table).Marked i n := by
  induction n generalizing i entry table with
  | zero => exact ⟨changes_refl table i, fun j h1 h2 => by omega⟩
  | succ n ih =>
    rw [heap_mark_blocks_taken_loop]
    set entry' := if (i : Int) ≠ e - 1 then HEAP_BLOCK_TABLE_ENTRY_TAKEN ||| HEAP_BLOCK_HAS_NEXT
      else HEAP_BLOCK_TABLE_ENTRY_TAKEN with hentry'
    have hnext' : entry' &&& HEAP_BLOCK_HAS_NEXT = 0 ↔ i + 1 = e := by
      rw [hentry']
      split
      · exact ⟨fun h => absurd h (by decide), fun h => by omega⟩
      · exact ⟨fun _ => by omega, fun _ => by decide⟩
    have htaken' : heap_get_entry_type entry' ≠ HEAP_BLOCK_TABLE_ENTRY_FREE := by
      rw [hentry']
      split <;> decide
    have hih := @ih (table.set i entry) (i + 1) entry' (by omega) htaken' hnext'
    generalize heap_mark_blocks_taken_loop e n (i + 1) entry' (table.set i entry) = table' at *
    obtain ⟨hc, hm⟩ := hih
    have hi : table'.entries i = entry := by
      rw [hc.frame i (by omega), set_entries, if_pos rfl]
    refine ⟨changes_set i n entry hc, fun j h1 h2 => ?_⟩
    rcases Nat.eq_or_lt_of_le h1 with rfl | hlt
    · unfold HeapTable.Free
      rw [hi, hnext]
      exact ⟨htaken, by omega⟩
    · have := hm j hlt (by omega)
      rwa [show i + 1 + n = i + (n + 1) by omega] at this

theorem heap_mark_blocks_taken_spec (heap : Heap) (s n : Nat) :
    (heap_mark_blocks_taken heap s n).saddr = heap.saddr ∧
      heap.table.Changes (heap_mark_blocks_taken heap s n).table s n ∧
      (heap_mark_blocks_taken heap s n).table.Marked s n := by
  refine ⟨rfl, ?_⟩
  unfold heap_mark_blocks_taken
  rcases n with _ | n
  · exact ⟨changes_refl _ s, fun j h1 h2 => by omega⟩
  · dsimp only
    rw [show (s : Int) + (n + 1 : Nat) - 1 = (s + n : Nat) by omega]
    apply heap_mark_blocks_taken_loop_spec
    · omega
    · split <;> decide
    · split
      · exact ⟨fun h => absurd h (by decide), fun h => by omega⟩
      · exact ⟨fun _ => by omega, fun _ => by decide⟩

theorem heap_mark_blocks_free_loop_spec (n m i : Nat) (hn : 1 ≤ n) (hm : n ≤ m)
    (hmark : table.Marked i n) :
    table.Changes (heap_mark_blocks_free_loop m i table) i n ∧
      ∀ j, i ≤ j → j < i + n →
        (heap_mark_blocks_free_loop m i table).entries j = HEAP_BLOCK_TABLE_ENTRY_FREE := by
  induction n generalizing i m table with
  | zero => omega
  | succ n ih =>
    obtain ⟨m, rfl⟩ : ∃ m', m = m' + 1 := ⟨m - 1, by omega⟩
    rw [heap_mark_blocks_free_loop]
    have hfirst := (hmark i (Nat.le_refl i) (by omega)).2
    rcases Nat.eq_zero_or_pos n with rfl | hpos
    · rw [if_pos (hfirst.mpr (by omega))]
      refine ⟨changes_set i 0 _ (changes_refl _ (i + 1)), fun j h1 h2 => ?_⟩
      rw [set_entries, if_pos (by omega)]
    · rw [if_neg (fun h => by have := hfirst.mp h; omega)]
      have hmark' : (table.set i HEAP_BLOCK_TABLE_ENTRY_FREE).Marked (i + 1) n := by
        intro j h1 h2
        have := hmark j (by omega) (by omega)
        unfold HeapTable.Free at this ⊢
        rwa [set_entries, if_neg (by omega), show i + 1 + n = i + (n + 1) by omega]
      obtain ⟨hc, hfree⟩ := ih m (i + 1) hpos (by omega) hmark'
      generalize heap_mark_blocks_free_loop m (i + 1) _ = table' at *
      refine ⟨changes_set i n _ hc, fun j h1 h2 => ?_⟩
      rcases Nat.eq_or_lt_of_le h1 with rfl | hlt
      · rw [hc.frame i (by omega), set_entries, if_pos rfl]
      · exact hfree j hlt (by omega)

theorem heap_mark_blocks_free_loop_of_free (m i : Nat) (hm : 1 ≤ m)
    (hfree : table.entries i = HEAP_BLOCK_TABLE_ENTRY_FREE) :
    heap_mark_blocks_free_loop m i table = table.set i HEAP_BLOCK_TABLE_ENTRY_FREE := by
  obtain ⟨m, rfl⟩ : ∃ m', m = m' + 1 := ⟨m - 1, by omega⟩
  rw [heap_mark_blocks_free_loop, if_pos]
  rw [hfree]
  decide

theorem heap_mark_blocks_free_loop_frees (m i : Nat) :
    (heap_mark_blocks_free_loop m i table).total = table.total ∧
      ∀ j, (heap_mark_blocks_free_loop m i table).entries j = table.entries j ∨
        (heap_mark_blocks_free_loop m i table).entries j = HEAP_BLOCK_TABLE_ENTRY_FREE := by
  induction m generalizing i table with
  | zero => exact ⟨rfl, fun _ => Or.inl rfl⟩
  | succ m ih =>
    have hset : ∀ j, (table.set i HEAP_BLOCK_TABLE_ENTRY_FREE).entries j = table.entries j ∨
        (table.set i HEAP_BLOCK_TABLE_ENTRY_FREE).entries j = HEAP_BLOCK_TABLE_ENTRY_FREE := by
      intro j
      rw [set_entries]
      split
      · exact Or.inr rfl
      · exact Or.inl rfl
    rw [heap_mark_blocks_free_loop]
    split
    · exact ⟨rfl, hset⟩
    · obtain ⟨htotal, hrest⟩ := @ih (table.set i HEAP_BLOCK_TABLE_ENTRY_FREE) (i + 1)
      refine ⟨htotal, ?_⟩
      intro j
      rcases hrest j with h | h
      · rw [h]
        exact hset j
      · exact Or.inr h

theorem heap_mark_blocks_free_loop_first (m i : Nat) :
    (heap_mark_blocks_free_loop (m + 1) i table).entries i = HEAP_BLOCK_TABLE_ENTRY_FREE := by
  have hset : (table.set i HEAP_BLOCK_TABLE_ENTRY_FREE).entries i = HEAP_BLOCK_TABLE_ENTRY_FREE := if_pos rfl
  rw [heap_mark_blocks_free_loop]
  split
  · exact hset
  · have hrest := @heap_mark_blocks_free_loop_frees (table.set i HEAP_BLOCK_TABLE_ENTRY_FREE) m (i + 1)
    rcases hrest.2 i with h | h
    · rw [h]
      exact hset
    · exact h

theorem setBelow_below (n j : Nat) (entry : UInt8) :
    (table.setBelow n entry).below j = if j = n then entry else table.below j := rfl

theorem heap_mark_blocks_free_below_stops (n : Nat) (h : table.StopsBelow n) :
    (heap_mark_blocks_free_below n table).entries = table.entries ∧
      (heap_mark_blocks_free_below n table).total = table.total ∧
      ∀ m, (heap_mark_blocks_free_below n table).StopsBelow m ↔ table.StopsBelow m := by
  induction n generalizing table with
  | zero =>
    obtain ⟨j, hj, -⟩ := h
    omega
  | succ n ih =>
    have hstop : HEAP_BLOCK_TABLE_ENTRY_FREE &&& HEAP_BLOCK_HAS_NEXT = 0 := by decide
    rw [heap_mark_blocks_free_below]
    by_cases hmark : table.below n &&& HEAP_BLOCK_HAS_NEXT = 0
    · rw [if_pos hmark]
      refine ⟨rfl, rfl, fun m => ?_⟩
      refine exists_congr fun j => and_congr_right fun _ => ?_
      rw [setBelow_below]
      split
      · rename_i hj
        rw [hj, hmark, hstop]
      · rfl
    · rw [if_neg hmark]
      -- a smaller block has no mark, so clearing this one changes no answer
      obtain ⟨j, hj, hfree⟩ := h
      have hlt : j < n := by
        rcases Nat.lt_succ_iff_lt_or_eq.mp hj with hlt | rfl
        · exact hlt
        · exact absurd hfree hmark
      have hsame : ∀ m, (table.setBelow n HEAP_BLOCK_TABLE_ENTRY_FREE).StopsBelow m ↔ table.StopsBelow m := by
        intro m
        constructor
        · rintro ⟨i, hi, hi'⟩
          rw [setBelow_below] at hi'
          split at hi'
          · exact ⟨j, by omega, hfree⟩
          · exact ⟨i, hi, hi'⟩
        · rintro ⟨i, hi, hi'⟩
          refine ⟨i, hi, ?_⟩
          rw [setBelow_below]
          split
          · exact hstop
          · exact hi'
      obtain ⟨h1, h2, h3⟩ := ih ((hsame n).mpr ⟨j, hlt, hfree⟩)
      exact ⟨h1, h2, fun m => (h3 m).trans (hsame m)⟩

theorem heap_mark_blocks_free_below_goes_on (n : Nat) (h : ¬ table.StopsBelow n) :
    ∃ table' : HeapTable, table'.entries = table.entries ∧ table'.total = table.total ∧
      heap_mark_blocks_free_below n table = heap_mark_blocks_free_loop table.total 0 table' := by
  induction n generalizing table with
  | zero => exact ⟨table, rfl, rfl, rfl⟩
  | succ n ih =>
    have hmark : ¬ table.below n &&& HEAP_BLOCK_HAS_NEXT = 0 := fun h0 => h ⟨n, Nat.lt_succ_self n, h0⟩
    have hrest : ¬ (table.setBelow n HEAP_BLOCK_TABLE_ENTRY_FREE).StopsBelow n := by
      rintro ⟨j, hj, hj'⟩
      rw [setBelow_below, if_neg (by omega)] at hj'
      exact h ⟨j, by omega, hj'⟩
    obtain ⟨table', h1, h2, h3⟩ := ih hrest
    refine ⟨table', h1, h2, ?_⟩
    rw [heap_mark_blocks_free_below, if_neg hmark]
    exact h3

/-! ## `heap_free` -/

theorem heap_mark_blocks_free_block (heap : Heap) (s : Nat) :
    heap_mark_blocks_free heap s =
      { heap with table := heap_mark_blocks_free_loop (heap.table.total - s) s heap.table } := by
  unfold heap_mark_blocks_free
  rw [if_neg (by omega), Int.toNat_natCast, show ((heap.table.total : Int) - s).toNat = heap.table.total - s by omega]

theorem heap_free_frees (heap : Heap) (ptr : Nat) :
    (heap_free heap ptr).table.total = heap.table.total ∧
      ∀ j, (heap_free heap ptr).table.entries j = heap.table.entries j ∨
        (heap_free heap ptr).table.entries j = HEAP_BLOCK_TABLE_ENTRY_FREE := by
  unfold heap_free heap_mark_blocks_free
  dsimp only
  split
  · by_cases hstop : heap.table.StopsBelow (-heap_address_to_block heap ptr).toNat
    · obtain ⟨hentries, htotal, -⟩ := heap_mark_blocks_free_below_stops _ hstop
      exact ⟨htotal, fun j => Or.inl (congrFun hentries j)⟩
    · obtain ⟨table, hentries, htotal, heq⟩ := heap_mark_blocks_free_below_goes_on _ hstop
      rw [heq, ← hentries, ← htotal]
      exact heap_mark_blocks_free_loop_frees _ _
  · exact heap_mark_blocks_free_loop_frees _ _

end Blocks

end PeachOS
