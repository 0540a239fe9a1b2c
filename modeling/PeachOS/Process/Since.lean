import PeachOS.Code.Kernel
import PeachOS.Heap.Runs
import PeachOS.Process.Memory
import Mathlib.Tactic.Linarith

/-!
# What allocation leaves alone

`Since k k'` says that `k'` comes after `k`, and that every block that was in use in `k` still has the
same table entry and the same bytes. Allocations, and writes to what was allocated, keep it.
-/

open PeachOS.Lib PeachOS.Blocks

namespace PeachOS

namespace Kernel

/-- The heap starts at a page, and its addresses are below 2^32. -/
structure HeapOk (k : Kernel) : Prop where
  aligned : k.heap.saddr % 4096 = 0
  pos : 0 < k.heap.saddr
  fits : k.heap.saddr + k.heap.table.total * 4096 < 2 ^ 32
  small : k.heap.table.total * 4096 < 0x80000000

def blockAddr (k : Kernel) (i : Nat) : Nat := k.heap.saddr + i * 4096

/-- A block that is not free. -/
def Used (k : Kernel) (i : Nat) : Prop := i < k.heap.table.total ∧ ¬ k.heap.table.Free i

/-- The page at `a` is a block in use. -/
def UsedAt (k : Kernel) (a : Nat) : Prop := ∃ i, a = k.blockAddr i ∧ k.Used i

/-- The page at `a` is not a free block. It may be behind the heap. -/
def Taken (k : Kernel) (a : Nat) : Prop := ∀ i < k.heap.table.total, a = k.blockAddr i → ¬ k.heap.table.Free i

structure Since (k k' : Kernel) : Prop where
  saddr : k'.heap.saddr = k.heap.saddr
  total : k'.heap.table.total = k.heap.table.total
  entries : ∀ i, k.Used i → k'.heap.table.entries i = k.heap.table.entries i
  mem : ∀ a, k.UsedAt a → ∀ o < 4096, k'.mem (a + o) = k.mem (a + o)

end Kernel

namespace Memory

open Kernel

variable {k k' k'' : Kernel}

theorem since_same (hheap : k'.heap = k.heap) (hmem : k'.mem = k.mem) : k.Since k' :=
  ⟨by rw [hheap], by rw [hheap], fun _ _ => by rw [hheap], fun _ _ _ _ => by rw [hmem]⟩

theorem since_addr (h : k.Since k') (i : Nat) : k'.blockAddr i = k.blockAddr i := by
  unfold blockAddr
  rw [h.saddr]

theorem since_used (h : k.Since k') (i : Nat) (hi : k.Used i) : k'.Used i := by
  refine ⟨h.total ▸ hi.1, ?_⟩
  unfold HeapTable.Free
  rw [h.entries i hi]
  exact hi.2

theorem since_usedAt (h : k.Since k') (a : Nat) (ha : k.UsedAt a) : k'.UsedAt a := by
  obtain ⟨i, rfl, hi⟩ := ha
  exact ⟨i, (since_addr h i).symm, since_used h i hi⟩

theorem taken_of_usedAt {a : Nat} (h : k.UsedAt a) : k.Taken a := by
  obtain ⟨i, rfl, hi⟩ := h
  intro j _ heq
  unfold blockAddr at heq
  rw [show j = i by omega]
  exact hi.2

theorem since_taken (h : k.Since k') (a : Nat) (ha : k.Taken a) : k'.Taken a := by
  intro i hi heq
  rw [h.total] at hi
  rw [since_addr h] at heq
  exact (since_used h i ⟨hi, ha i hi heq⟩).2

theorem since_trans (h : k.Since k') (h' : k'.Since k'') : k.Since k'' := by
  refine ⟨h'.saddr.trans h.saddr, h'.total.trans h.total, fun i hi => ?_, fun a ha o ho => ?_⟩
  · rw [h'.entries i (since_used h i hi), h.entries i hi]
  · rw [h'.mem a (since_usedAt h a ha) o ho, h.mem a ha o ho]

theorem since_heapOk (h : k.Since k') (hk : k.HeapOk) : k'.HeapOk :=
  ⟨by rw [h.saddr]; exact hk.aligned, by rw [h.saddr]; exact hk.pos,
    by rw [h.saddr, h.total]; exact hk.fits, by rw [h.total]; exact hk.small⟩

theorem since_read32 (h : k.Since k') (a : Nat) (ha : k.UsedAt a) (o : Nat) (ho : o + 4 ≤ 4096) :
    read32 k'.mem (a + o) = read32 k.mem (a + o) := by
  refine read32_congr _ _ fun i hi => ?_
  rw [Nat.add_assoc]
  exact h.mem a ha (o + i) (by omega)

theorem usedAt_aligned (hk : k.HeapOk) (a : Nat) (ha : k.UsedAt a) : a % 4096 = 0 ∧ a < 2 ^ 32 := by
  obtain ⟨i, rfl, hi⟩ := ha
  have h1 := hk.aligned
  have h2 := hk.fits
  have h3 := hi.1
  unfold blockAddr
  omega

theorem usedAt_apart (hk : k.HeapOk) (a b : Nat) (ha : k.UsedAt a) (hb : b % 4096 = 0) (hne : a ≠ b) :
    a + 4096 ≤ b ∨ b + 4096 ≤ a := by
  have := (usedAt_aligned hk a ha).1
  omega

/-! ## Allocating -/

/-- The page at `a` was free in `k`, and in `k'` it is not marked as going on in the next block. -/
def Loose (k k' : Kernel) (a : Nat) : Prop :=
  ∃ i, a = k'.blockAddr i ∧ i < k.heap.table.total ∧ k.heap.table.Free i ∧
    k'.heap.table.entries i &&& HEAP_BLOCK_HAS_NEXT = 0

/-- Besides, it is in use: it has been allocated by itself since `k`. -/
def Page (k k' : Kernel) (a : Nat) : Prop := Loose k k' a ∧ k'.UsedAt a

/-- What `kzalloc` did: it took the `n` blocks from `r` on, as far as they are in the table. -/
structure Allocated (k : Kernel) (size : Nat) (k' : Kernel) (r : Nat) : Prop where
  addr : (k.kzalloc size).1 = k.blockAddr r
  lt : r < k.heap.table.total
  free : ∀ i, r ≤ i → i < r + heap_total_blocks size → i < k.heap.table.total → k.heap.table.Free i
  used : k'.Used r
  marked : ∀ i, r ≤ i → i < r + heap_total_blocks size → ¬ k'.heap.table.Free i
  others : ∀ i, ¬ (r ≤ i ∧ i < r + heap_total_blocks size) → k'.heap.table.entries i = k.heap.table.entries i
  single : heap_total_blocks size = 1 → k'.heap.table.entries r &&& HEAP_BLOCK_HAS_NEXT = 0
  since : k.Since k'
  mem : ∀ x, ¬ (k.blockAddr r ≤ x ∧ x < k.blockAddr r + size) → k'.mem x = k.mem x
  tasks : k'.tasks = k.tasks
  process : k'.process = k.process
  processes : k'.processes = k.processes

theorem since_write (h : k.Since k') (mem : Nat → UInt8)
    (hmem : ∀ a, k.UsedAt a → ∀ o < 4096, mem (a + o) = k'.mem (a + o)) :
    k.Since { k' with mem := mem } :=
  ⟨h.saddr, h.total, h.entries, fun a ha o ho => (hmem a ha o ho).trans (h.mem a ha o ho)⟩

theorem kzalloc_oom (k : Kernel) (size : Nat) (h : (k.kzalloc size).2.oom = false) :
    k.oom = false ∧ (k.kzalloc size).1 ≠ 0 := by
  unfold kzalloc kmalloc at *
  dsimp only at *
  split at h
  · rename_i h0
    simp [h0] at h
  · rename_i h0
    rw [if_neg h0]
    simp only [Bool.or_eq_false_iff] at h
    exact ⟨h.1, h0⟩

theorem kzalloc_eq (hk : k.HeapOk) (size r : Nat)
    (heq : heap_get_start_block k.heap (heap_total_blocks size) = r) (hr : r < k.heap.table.total) :
    k.kzalloc size = (k.blockAddr r, { k with
      heap := heap_mark_blocks_taken k.heap r (heap_total_blocks size)
      oom := k.oom || false
      mem := memset0 k.mem (k.blockAddr r) size }) := by
  have hfits := hk.fits
  have hlt : k.heap.saddr + r * 4096 < 2 ^ 32 := by linarith
  have haddr : heap_block_to_address k.heap r = k.blockAddr r := heap_block_to_address_spec k.heap r hlt
  have hmalloc : heap_malloc k.heap size =
      (k.blockAddr r, heap_mark_blocks_taken k.heap r (heap_total_blocks size)) := by
    unfold heap_malloc heap_malloc_blocks
    rw [heq]
    dsimp only
    rw [if_neg (by omega), haddr, Int.toNat_natCast]
  have hne0 : k.blockAddr r ≠ 0 := by
    have := hk.pos
    unfold blockAddr
    omega
  unfold kzalloc kmalloc
  rw [hmalloc]
  simp [hne0]

theorem kzalloc_spec (hk : k.HeapOk) (size : Nat) (h1 : 1 ≤ size) (h2 : size ≤ 2 ^ 32 - 4096)
    (hne : (k.kzalloc size).1 ≠ 0) : ∃ r, Allocated k size (k.kzalloc size).2 r := by
  obtain ⟨hneed, hcover⟩ := heap_total_blocks_of_le size h2
  have hpos : 1 ≤ heap_total_blocks size := by
    unfold PEACHOS_HEAP_BLOCK_SIZE at hcover
    omega
  obtain ⟨r, heq, hr, hfree⟩ : ∃ r : Nat, heap_get_start_block k.heap (heap_total_blocks size) = r ∧
      r < k.heap.table.total ∧ ∀ i, r ≤ i → i < r + heap_total_blocks size →
        i < k.heap.table.total → k.heap.table.Free i := by
    rcases heap_get_start_block_spec k.heap (heap_total_blocks size) with
      ⟨r, heq, -, hr, hfree, -⟩ | ⟨r, heq, hr, hfree, -⟩ | ⟨heq, -⟩
    · exact ⟨r, heq, by omega, fun i hi1 hi2 _ => hfree i hi1 hi2⟩
    · exact ⟨r, heq, hr, fun i hi1 _ hi3 => hfree i hi1 hi3⟩
    · refine absurd ?_ hne
      unfold kzalloc kmalloc heap_malloc heap_malloc_blocks
      rw [heq]
      rfl
  have hz := kzalloc_eq hk size r heq hr
  generalize hn : heap_total_blocks size = n at *
  obtain ⟨hs, hc, hm⟩ := heap_mark_blocks_taken_spec k.heap r n
  have hout : ∀ i, k.Used i → ¬ (r ≤ i ∧ i < r + n) := fun i hi hin =>
    hi.2 (hfree i hin.1 hin.2 hi.1)
  rw [hz]
  refine ⟨r, by rw [hz], hr, by rw [hn]; exact hfree, ⟨by rw [hc.total]; exact hr, (hm r (Nat.le_refl r) (by omega)).1⟩,
    fun i h1 h2 => (hm i h1 (by omega)).1, by rw [hn]; exact hc.frame, fun h1 =>
    ((hm r (Nat.le_refl r) (by omega)).2.mpr (by omega)), ?_, fun x hx => if_neg hx, rfl, rfl, rfl⟩
  refine ⟨hs, hc.total, fun i hi => hc.frame i (hout i hi), ?_⟩
  rintro a ⟨i, rfl, hi⟩ o ho
  refine if_neg ?_
  have := hout i hi
  unfold blockAddr PEACHOS_HEAP_BLOCK_SIZE at *
  omega

theorem heapOk_same (hk : k.HeapOk) (h : k'.heap = k.heap) : k'.HeapOk := by
  constructor <;> rw [h]
  · exact hk.aligned
  · exact hk.pos
  · exact hk.fits
  · exact hk.small

/-- What an allocation of any size leaves alone. A size near 2^32 is rounded to 0 and takes no block at all, but its
bytes are set. -/
structure Grows (k k' : Kernel) : Prop where
  saddr : k'.heap.saddr = k.heap.saddr
  total : k'.heap.table.total = k.heap.table.total
  entries : ∀ i, k.Used i → k'.heap.table.entries i = k.heap.table.entries i
  tasks : k'.tasks = k.tasks
  process : k'.process = k.process
  processes : k'.processes = k.processes

theorem kzalloc_cases (hk : k.HeapOk) (size : Nat) :
    ((k.kzalloc size).1 = 0 ∧ (k.kzalloc size).2 = { k with oom := true }) ∨
      ((∃ r < k.heap.table.total, (k.kzalloc size).1 = k.blockAddr r) ∧ Grows k (k.kzalloc size).2) := by
  have hgrant : ∀ r : Nat, heap_get_start_block k.heap (heap_total_blocks size) = r → r < k.heap.table.total →
      (∀ i, r ≤ i → i < r + heap_total_blocks size → i < k.heap.table.total → k.heap.table.Free i) →
      (∃ r < k.heap.table.total, (k.kzalloc size).1 = k.blockAddr r) ∧ Grows k (k.kzalloc size).2 := by
    intro r heq hr hfree
    rw [kzalloc_eq hk size r heq hr]
    obtain ⟨hs, hc, -⟩ := heap_mark_blocks_taken_spec k.heap r (heap_total_blocks size)
    refine ⟨⟨r, hr, rfl⟩, hs, hc.total, ?_, rfl, rfl, rfl⟩
    intro i hi
    exact hc.frame i fun hin => hi.2 (hfree i hin.1 hin.2 hi.1)
  rcases heap_get_start_block_spec k.heap (heap_total_blocks size) with
    ⟨r, heq, h1, hr, hfree, -⟩ | ⟨r, heq, hr, hfree, -⟩ | ⟨heq, -⟩
  · exact Or.inr (hgrant r heq (by omega) fun i hi1 hi2 _ => hfree i hi1 hi2)
  · exact Or.inr (hgrant r heq hr fun i hi1 _ hi3 => hfree i hi1 hi3)
  · left
    unfold kzalloc kmalloc heap_malloc heap_malloc_blocks
    rw [heq]
    exact ⟨rfl, by simp [ENOMEM]⟩

theorem grows_kzalloc (hk : k.HeapOk) (size : Nat) : Grows k (k.kzalloc size).2 := by
  rcases kzalloc_cases hk size with ⟨-, heq⟩ | ⟨-, h⟩
  · rw [heq]
    exact ⟨rfl, rfl, fun _ _ => rfl, rfl, rfl, rfl⟩
  · exact h

theorem grows_heapOk (h : Grows k k') (hk : k.HeapOk) : k'.HeapOk :=
  ⟨by rw [h.saddr]; exact hk.aligned, by rw [h.saddr]; exact hk.pos,
    by rw [h.saddr, h.total]; exact hk.fits, by rw [h.total]; exact hk.small⟩

/-! ## Pages that have been allocated -/

theorem blockAddr_inj (k : Kernel) (i j : Nat) (h : k.blockAddr i = k.blockAddr j) : i = j := by
  unfold blockAddr at h
  omega

theorem page_of_allocated (size r : Nat) (h : Allocated k size k' r) (h1 : heap_total_blocks size = 1) :
    Page k k' (k.blockAddr r) := by
  rw [← since_addr h.since r]
  exact ⟨⟨r, rfl, h.lt, h.free r (Nat.le_refl r) (by omega) h.lt, h.single h1⟩, r, rfl, h.used⟩

theorem taken_allocated (size r : Nat) (h : Allocated k size k' r) (j : Nat) (hj : j < heap_total_blocks size) :
    k'.Taken ((k.kzalloc size).1 + j * 4096) := by
  intro i _ heq
  have hi : i = r + j := by
    rw [h.addr, since_addr h.since] at heq
    unfold blockAddr at heq
    omega
  exact h.marked i (by omega) (by omega)

theorem page_since (a : Nat) (h : Page k k' a) (hs : k'.Since k'') : Page k k'' a := by
  obtain ⟨⟨i, rfl, hi, hfree, hmark⟩, hused⟩ := h
  have hui : k'.Used i := by
    obtain ⟨j, heq, hj⟩ := hused
    rwa [blockAddr_inj k' i j heq]
  refine ⟨⟨i, (since_addr hs i).symm, hi, hfree, ?_⟩, since_usedAt hs _ hused⟩
  rw [hs.entries i hui]
  exact hmark

theorem page_earlier (a : Nat) (hs : k.Since k') (h : Page k' k'' a) : Page k k'' a := by
  obtain ⟨⟨i, heq, hi, hfree, hmark⟩, hused⟩ := h
  refine ⟨⟨i, heq, hs.total ▸ hi, ?_, hmark⟩, hused⟩
  by_contra hnot
  exact (since_used hs i ⟨hs.total ▸ hi, hnot⟩).2 hfree

theorem page_ne (hs : k.Since k') (a b : Nat) (h : Page k k' a) (hb : k.UsedAt b) : b ≠ a := by
  obtain ⟨⟨i, rfl, -, hfree, -⟩, -⟩ := h
  obtain ⟨j, rfl, hj⟩ := hb
  rw [since_addr hs]
  intro heq
  rw [blockAddr_inj k j i heq] at hj
  exact hj.2 hfree

theorem taken_ne (hs : k.Since k') (a b : Nat) (ha : k.Taken a) (hb : Page k k' b) : a ≠ b := by
  obtain ⟨⟨i, rfl, hi, hfree, -⟩, -⟩ := hb
  rw [since_addr hs]
  exact fun heq => ha i hi heq hfree

theorem since_write_page (hk : k.HeapOk) (h : k.Since k') (a : Nat) (ha : Page k k' a)
    (mem : Nat → UInt8) (hmem : ∀ x, ¬ (a ≤ x ∧ x < a + 4096) → mem x = k'.mem x) :
    k.Since { k' with mem := mem } := by
  refine since_write h mem fun b hb o ho => hmem _ ?_
  have hne := page_ne h a b ha hb
  have ha' := (usedAt_aligned (since_heapOk h hk) a ha.2).1
  have hb' := (usedAt_aligned hk b hb).1
  omega

/-! ## Freeing -/

theorem kfree_block (hk : k.HeapOk) (i : Nat) (hi : i < k.heap.table.total) :
    (k.kfree (k.blockAddr i)).heap =
      { k.heap with table := heap_mark_blocks_free_loop (k.heap.table.total - i - 1 + 1) i k.heap.table } := by
  have hsmall := hk.small
  have hblock : heap_address_to_block k.heap (k.blockAddr i) = i :=
    heap_address_to_block_spec k.heap i (show i * 4096 < 0x80000000 by linarith)
  unfold kfree heap_free
  rw [hblock, heap_mark_blocks_free_block, show k.heap.table.total - i = k.heap.table.total - i - 1 + 1 by omega]
  rfl

theorem kfree_single (hk : k.HeapOk) (i : Nat) (hi : i < k.heap.table.total)
    (hmark : k.heap.table.entries i &&& HEAP_BLOCK_HAS_NEXT = 0) :
    (k.kfree (k.blockAddr i)).heap =
      { k.heap with table := k.heap.table.set i HEAP_BLOCK_TABLE_ENTRY_FREE } := by
  rw [kfree_block hk i hi, heap_mark_blocks_free_loop, if_pos hmark]

theorem kfree_loose (hk : k.HeapOk) (hs : k.Since k') (a : Nat) (ha : Loose k k' a) :
    k.Since (k'.kfree a) ∧ (k'.kfree a).mem = k'.mem ∧ (k'.kfree a).oom = k'.oom ∧
      ∀ b, Loose k k' b → Loose k (k'.kfree a) b := by
  obtain ⟨i, rfl, hi, hfree, hmark⟩ := ha
  have hheap := kfree_single (since_heapOk hs hk) i (hs.total ▸ hi) hmark
  have hentries : ∀ j, (k'.kfree (k'.blockAddr i)).heap.table.entries j =
      if j = i then HEAP_BLOCK_TABLE_ENTRY_FREE else k'.heap.table.entries j := fun j => by
    rw [hheap]
    rfl
  refine ⟨⟨by rw [hheap]; exact hs.saddr, by rw [hheap]; exact hs.total, fun j hj => ?_, hs.mem⟩, rfl, rfl,
    ?_⟩
  · rw [hentries, if_neg, hs.entries j hj]
    rintro rfl
    exact hj.2 hfree
  · rintro b ⟨j, rfl, hj, hjf, hjm⟩
    refine ⟨j, rfl, hj, hjf, ?_⟩
    rw [hentries]
    split
    · decide
    · exact hjm

end Memory

end PeachOS
