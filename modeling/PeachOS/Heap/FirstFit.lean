import PeachOS.Heap.Runs

/-!
# First fit

As long as there is room for each request, `heap_malloc` takes the lowest blocks that are enough, and `heap_free` gives
back the same blocks. The table has no lengths, so this rests on the marks of all allocations that are left.
-/

open PeachOS.Lib

namespace PeachOS

namespace HeapState

/-- One call, where each request is served. In a heap at address 0 a served request can get address 0. -/
def serve (s : HeapState) (c : HeapCall) : HeapState := s.next (fun _ => true) c

/-- There are enough free blocks in a row for the request. -/
def Fits (s : HeapState) : HeapCall → Prop
  | .malloc size => 1 ≤ size.toNat ∧ size.toNat ≤ 2 ^ 32 - 4096 ∧ s.heap.table.HasRun (needed size.toNat)
  | .free _ => True

/-- The first of the runs of `n` free blocks starts at `b`. -/
structure Lowest (table : HeapTable) (n b : Nat) : Prop where
  inside : b + n ≤ table.total
  free : AllIn table.Free b n
  least : ∀ b', b' + n ≤ table.total → AllIn table.Free b' n → b ≤ b'

/-- A request gets the address of the lowest blocks that are enough, and marks these blocks only. To free it turns
the entries of these blocks to free, and no other entry. -/
def FirstFit (s : HeapState) : HeapCall → Prop
  | .malloc size => ∃ b, Lowest s.heap.table (needed size.toNat) b ∧
      (heap_malloc s.heap size.toNat).1 = u32 (s.heap.saddr + b * 4096 : Nat) ∧
      Alloc.block ⟨(heap_malloc s.heap size.toNat).1, size.toNat⟩ s.heap.saddr = b ∧
      AllIn (fun i => ¬ (s.serve (.malloc size)).heap.table.Free i) b (needed size.toNat) ∧
      s.heap.table.Frame (s.serve (.malloc size)).heap.table b (needed size.toNat)
  | .free k => ∀ a, s.out[k]? = some a →
      AllIn (fun i => (s.serve (.free k)).heap.table.entries i = HEAP_BLOCK_TABLE_ENTRY_FREE)
        (a.block s.heap.saddr) (needed a.size) ∧
      s.heap.table.Frame (s.serve (.free k)).heap.table (a.block s.heap.saddr) (needed a.size)

end HeapState

namespace Blocks

variable {s : HeapState}

/-- No request was empty or wrapped around when it was rounded up. -/
structure FitInv (s : HeapState) : Prop extends HeapInv s where
  sizes : ∀ a ∈ s.out, 1 ≤ a.size ∧ a.size ≤ 2 ^ 32 - 4096

/-! ## `heap_malloc` -/

theorem needed_pos (size : Nat) (h : 1 ≤ size) : 1 ≤ HeapState.needed size := by
  unfold HeapState.needed PEACHOS_HEAP_BLOCK_SIZE
  omega

theorem fitInv_blocks (h : FitInv s) (a : Alloc) (ha : a ∈ s.out) : a.blocks = HeapState.needed a.size :=
  (heap_total_blocks_of_le a.size (h.sizes a ha).2).1

theorem heap_malloc_fits (heap : Heap) (size : Nat) (h1 : 1 ≤ size) (h2 : size ≤ 2 ^ 32 - 4096)
    (hrun : heap.table.HasRun (HeapState.needed size)) :
    ∃ b, HeapState.Lowest heap.table (HeapState.needed size) b ∧
      heap_malloc heap size =
        (u32 (heap.saddr + b * 4096 : Nat), heap_mark_blocks_taken heap b (HeapState.needed size)) := by
  have hpos := needed_pos size h1
  unfold heap_malloc heap_malloc_blocks
  rw [(heap_total_blocks_of_le size h2).1]
  rcases heap_get_start_block_spec heap (HeapState.needed size) with
    ⟨r, heq, -, hr, hfree, hleast⟩ | ⟨r, -, -, -, hnone⟩ | ⟨-, -, hnone⟩
  · refine ⟨r, ⟨hr, hfree, ?_⟩, ?_⟩
    · intro b' _ hb'
      exact Nat.le_of_not_lt fun hlt => hleast b' hlt hb'
    · rw [heq]
      dsimp only
      rw [if_neg (by omega), Int.toNat_natCast]
      rfl
  · exact absurd hrun (hnone hpos)
  · exact absurd hrun (hnone hpos)

theorem malloc_firstFit (h : FitInv s) (size : UInt32) (hfit : s.Fits (.malloc size)) :
    FitInv (s.serve (.malloc size)) ∧ s.FirstFit (.malloc size) := by
  obtain ⟨h1, h2, hrun⟩ := hfit
  obtain ⟨b, hlow, heq⟩ := heap_malloc_fits s.heap size.toNat h1 h2 hrun
  have hblocks := (heap_total_blocks_of_le size.toNat h2).1
  have hblock := alloc_block s.heap.saddr b size.toNat (block_small h.small hlow.inside)
  have hinv := heapInv_taken h.toHeapInv size.toNat b (by rw [hblocks]; exact hlow.inside)
    (by rw [hblocks]; exact hlow.free) true
  rw [hblocks] at hinv
  obtain ⟨-, hc, hm⟩ := heap_mark_blocks_taken_spec s.heap b (HeapState.needed size.toNat)
  unfold HeapState.FirstFit HeapState.serve HeapState.next
  dsimp only
  rw [heq]
  refine ⟨⟨hinv, ?_⟩, b, hlow, rfl, hblock, fun i hi1 hi2 => (hm i hi1 hi2).1, hc.toFrame⟩
  intro a ha
  dsimp only at ha
  rcases mem_kept ha with ha | rfl
  · exact h.sizes a ha
  · exact ⟨h1, h2⟩

/-! ## `heap_free` -/

theorem free_firstFit (h : FitInv s) (k : Nat) : FitInv (s.serve (.free k)) ∧ s.FirstFit (.free k) := by
  simp only [HeapState.FirstFit, HeapState.serve, HeapState.next]
  cases hk : s.out[k]? with
  | none => simp [h]
  | some a =>
    have ha := List.mem_of_getElem? hk
    have hblocks := fitInv_blocks h a ha
    obtain ⟨hc, hfree⟩ := heap_free_held s.heap a h.small (h.held a ha) (by
      rw [hblocks]
      exact needed_pos a.size (h.sizes a ha).1)
    refine ⟨⟨heapInv_freed h.toHeapInv k a hk hc.toFrame, fun b hb => h.sizes b (List.mem_of_mem_eraseIdx hb)⟩, ?_⟩
    intro a' ha'
    cases ha'
    rw [← hblocks]
    exact ⟨hfree, hc.toFrame⟩

/-- First fit along every run whose requests all find room. -/
theorem heap_first_fit (heap₀ heap : Heap) (ptr end_ : Nat) (table : HeapTable)
    (hsize : u32 ((end_ : Int) - ptr) < 2 ^ 31) (hcreate : heap_create heap₀ ptr end_ table = (0, heap))
    (calls : List HeapCall) (hfit : Along HeapState.serve HeapState.Fits calls ⟨heap, []⟩) :
    Along HeapState.serve HeapState.FirstFit calls ⟨heap, []⟩ := by
  apply along_of_inv FitInv HeapState.Fits HeapState.FirstFit _ calls _
    ⟨heap_create_inv heap₀ heap ptr end_ table hsize hcreate, by simp⟩ hfit
  intro s c hs hc
  cases c with
  | malloc size => exact malloc_firstFit hs size hc
  | free k => exact free_firstFit hs k

theorem smallHeap_firstFit :
    Along HeapState.serve HeapState.FirstFit [.malloc 1, .malloc 8192, .free 0] ⟨smallHeap, []⟩ := by
  have hfirst : ∀ i < 1, smallHeap.table.Free i := by decide +kernel
  have hsecond : ∀ i < 2, ((⟨smallHeap, []⟩ : HeapState).serve (.malloc 1)).heap.table.Free (1 + i) := by
    decide +kernel
  apply heap_first_fit ⟨smallTable, 0⟩ smallHeap 0x1000000 0x1004000 smallTable (by decide) smallHeap_create
  refine ⟨⟨by decide, by decide, 0, by decide, ?_⟩, ⟨by decide, by decide, 1, by decide +kernel, ?_⟩, trivial, trivial⟩
  · exact fun i _ hi => hfirst i (Nat.lt_of_lt_of_le hi (by decide))
  · intro i hi1 hi2
    have hlt : i < 1 + 2 := Nat.lt_of_lt_of_le hi2 (by decide)
    rw [show i = 1 + (i - 1) by omega]
    exact hsecond (i - 1) (by omega)

end Blocks

end PeachOS
