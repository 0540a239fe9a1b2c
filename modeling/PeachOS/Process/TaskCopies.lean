import PeachOS.Process.CopyToTask
import PeachOS.Process.Sharing
import PeachOS.Spec.TaskCopies

/-!
# Copies between the kernel and a task

`copy_to_task` and `copy_string_from_task` map one block of the heap to itself in the directory of the task, copy
through that directory and set the entry back.
-/

open PeachOS.Lib PeachOS.Blocks PeachOS.Kernel

namespace PeachOS.Memory

variable {k k' : Kernel} {task chunk dir : Nat} {table phys : Nat → Nat} {m : FlatMap} {mem mem' : Nat → UInt8}

/-! ## Strings -/

theorem stringLength_le (s : Nat → UInt8) (n : Nat) : stringLength s n ≤ n := by
  induction n generalizing s with
  | zero => simp [stringLength]
  | succ n ih =>
    have := ih fun i => s (i + 1)
    unfold stringLength
    split <;> omega

theorem stringLength_ne (s : Nat → UInt8) (n i : Nat) (hi : i < stringLength s n) : s i ≠ 0 := by
  induction n generalizing s i with
  | zero => simp [stringLength] at hi
  | succ n ih =>
    unfold stringLength at hi
    split at hi
    · omega
    · rename_i h0
      cases i with
      | zero => exact h0
      | succ i => exact ih (fun i => s (i + 1)) i (by omega)

theorem stringLength_eq_zero (s : Nat → UInt8) (n : Nat) (h : stringLength s n < n) : s (stringLength s n) = 0 := by
  induction n generalizing s with
  | zero => omega
  | succ n ih =>
    unfold stringLength at h ⊢
    split
    · rename_i h0
      exact h0
    · rename_i h0
      rw [if_neg h0] at h
      exact ih (fun i => s (i + 1)) (by omega)

theorem stringLength_unique (s : Nat → UInt8) (n l : Nat) (hle : l ≤ n) (hne : ∀ i < l, s i ≠ 0)
    (hzero : l < n → s l = 0) : stringLength s n = l := by
  rcases Nat.lt_trichotomy (stringLength s n) l with hlt | heq | hgt
  · exact absurd (stringLength_eq_zero s n (by omega)) (hne _ hlt)
  · exact heq
  · have hle' := stringLength_le s n
    exact absurd (hzero (by omega)) (stringLength_ne s n l hgt)

theorem stringLength_congr {s t : Nat → UInt8} (n : Nat) (h : ∀ i < n, s i = t i) :
    stringLength s n = stringLength t n := by
  have hle := stringLength_le t n
  apply stringLength_unique s n _ hle
  · intro i hi
    rw [h i (by omega)]
    exact stringLength_ne t n i hi
  · intro hl
    rw [h _ hl]
    exact stringLength_eq_zero t n hl

/-! ## Bytes that are put to places -/

/-- The values are at their places, and all other bytes are as before. -/
structure Copied (mem mem' : Nat → UInt8) (place : Nat → Nat) (val : Nat → UInt8) (n : Nat) : Prop where
  bytes : ∀ j < n, mem' (place j) = val j
  others : ∀ x, (∀ j < n, x ≠ place j) → mem' x = mem x

theorem copied_cons (place : Nat → Nat) (val : Nat → UInt8) (n : Nat) (hne : ∀ j < n, place 0 ≠ place (j + 1))
    (h : Copied (fun x => if x = place 0 then val 0 else mem x) mem' (fun j => place (j + 1))
      (fun j => val (j + 1)) n) :
    Copied mem mem' place val (n + 1) := by
  constructor
  · intro j hj
    cases j with
    | zero => exact (h.others _ hne).trans (if_pos rfl)
    | succ j => exact h.bytes j (by omega)
  · intro x hx
    exact (h.others x fun j hj => hx (j + 1) (by omega)).trans (if_neg (hx 0 (by omega)))

theorem copied_one (place : Nat → Nat) (val : Nat → UInt8) :
    Copied mem (fun x => if x = place 0 then val 0 else mem x) place val 1 := by
  apply copied_cons place val 0 (fun j hj => by omega)
  exact ⟨fun j hj => by omega, fun _ _ => rfl⟩

/-- What `strncpy` puts to its buffer: a string of length `l` and the zero. -/
def cut (s : Nat → UInt8) (l i : Nat) : UInt8 := if i < l then s i else 0

theorem strncpy_walk_spec (walk : (Nat → UInt8) → Nat → Option Nat) (W : (Nat → UInt8) → Prop) (dest src : Nat)
    (place source : Nat → Nat) (n i l : Nat) (mem : Nat → UInt8) (hW : W mem)
    (hplace : ∀ mem, W mem → ∀ j ≤ n, walk mem (u32 (dest + (i + j : Nat))) = some (place j))
    (hsource : ∀ mem, W mem → ∀ j < n, walk mem (u32 (src + (i + j : Nat))) = some (source j))
    (hkeep : ∀ mem, W mem → ∀ j ≤ n, ∀ v, W fun x => if x = place j then v else mem x)
    (hapart : ∀ a ≤ n, ∀ b < n, place a ≠ source b) (hinj : ∀ a ≤ n, ∀ b ≤ n, place a = place b → a = b) (hle : l ≤ n)
    (hne : ∀ j < l, mem (source j) ≠ 0) (hzero : l < n → mem (source l) = 0) :
    ∃ mem', strncpy_walk walk dest src n i mem = some mem' ∧ W mem' ∧
      Copied mem mem' place (cut (fun j => mem (source j)) l) (l + 1) := by
  -- the addresses are translated as long as `W` holds, and the string has `l` more bytes
  induction n generalizing i l mem place source with
  | zero =>
    obtain rfl : l = 0 := by omega
    have hd := hplace mem hW 0 (Nat.le_refl 0)
    refine ⟨_, ?_, hkeep mem hW 0 (Nat.le_refl 0) 0, copied_one place (cut (fun j => mem (source j)) 0)⟩
    simp only [Nat.add_zero] at hd
    simp [strncpy_walk, hd]
  | succ n ih =>
    have hd := hplace mem hW 0 (Nat.zero_le _)
    have hs := hsource mem hW 0 (Nat.succ_pos n)
    simp only [Nat.add_zero] at hd hs
    unfold strncpy_walk
    simp only [hs, hd, Option.bind_eq_bind, Option.bind_some]
    cases l with
    | zero =>
      refine ⟨_, if_pos (hzero (Nat.succ_pos n)), hkeep mem hW 0 (Nat.zero_le _) 0, ?_⟩
      exact copied_one place (cut (fun j => mem (source j)) 0)
    | succ l =>
      rw [if_neg (hne 0 (Nat.succ_pos l))]
      have hsame :
          ∀ j < n, (if source (j + 1) = place 0 then mem (source 0) else mem (source (j + 1))) = mem (source (j + 1)) :=
        fun j hj => if_neg (hapart 0 (Nat.zero_le _) (j + 1) (by omega)).symm
      have hadd : ∀ j, i + 1 + j = i + (j + 1) := fun j => by omega
      obtain ⟨mem', heq, hW', hc⟩ := ih (fun j => place (j + 1)) (fun j => source (j + 1)) (i + 1) l _
        (hkeep mem hW 0 (Nat.zero_le _) (mem (source 0)))
        (fun mem h j hj => by rw [hadd]; exact hplace mem h (j + 1) (by omega))
        (fun mem h j hj => by rw [hadd]; exact hsource mem h (j + 1) (by omega))
        (fun mem h j hj v => hkeep mem h (j + 1) (by omega) v)
        (fun a ha b hb => hapart (a + 1) (by omega) (b + 1) (by omega))
        (fun a ha b hb hab => by have := hinj (a + 1) (by omega) (b + 1) (by omega) hab; omega)
        (by omega) (fun j hj => by rw [hsame j (by omega)]; exact hne (j + 1) (by omega))
        (fun hlt => by rw [hsame l (by omega)]; exact hzero (by omega))
      refine ⟨mem', heq, hW', copied_cons place _ _ ?_ ?_⟩
      · intro j hj h0
        have := hinj 0 (Nat.zero_le _) (j + 1) (by omega) h0
        omega
      · have hcut :
            ∀ j < l + 1, cut (fun j => if source (j + 1) = place 0 then mem (source 0) else mem (source (j + 1))) l j =
              cut (fun j => mem (source j)) (l + 1) (j + 1) := by
          intro j hj
          unfold cut
          by_cases hjl : j < l
          · rw [if_pos hjl, if_pos (by omega)]
            exact hsame j (by omega)
          · rw [if_neg hjl, if_neg (by omega)]
        constructor
        · intro j hj
          rw [hc.bytes j hj]
          exact hcut j hj
        · have h0 : cut (fun j => mem (source j)) (l + 1) 0 = mem (source 0) := if_pos (Nat.succ_pos l)
          rw [h0]
          exact hc.others

/-! ## Through the directory of a task -/

/-- The map leads from the address to the byte at `x`. -/
def Reaches (m : FlatMap) (va x : Nat) : Prop := Leads m va (x - x % 4096) ∧ x % 4096 = va % 4096

theorem page_walk_reaches (hk : k.HeapOk) (h : Holds k chunk dir table 7 m) (va x : Nat) (hva : va < 2 ^ 32)
    (hx : Reaches m va x) : page_walk k.mem dir va = some x := by
  rw [page_walk_leads hk h va _ hva hx.1, ← hx.2, Nat.sub_add_cancel (Nat.mod_le _ _)]

theorem read32_lt (mem : Nat → UInt8) (a : Nat) : read32 mem a < 2 ^ 32 := le32_lt _

theorem reaches_of_walk (hk : k.HeapOk) (h : Holds k chunk dir table 7 m) (va x : Nat) (hva : va < 2 ^ 32)
    (hwalk : page_walk k.mem dir va = some x) : Reaches m va x := by
  have htab := usedAt_aligned hk _ (h.pageDir.table_used (va / 4194304) (by omega))
  have hget := h.get (va - va % 4096) (by omega) (by omega)
  rw [paging_get_eq hk h.pageDir _ (by omega) (by omega), show (va - va % 4096) / 4194304 = va / 4194304 by omega,
    show (va - va % 4096) % 4194304 / 4096 = va % 4194304 / 4096 by omega] at hget
  unfold page_walk PAGING_IS_PRESENT at hwalk
  dsimp only at hwalk
  rw [h.pageDir.entry _ (by omega), table_of_or _ 7 htab.1 htab.2 (by omega), hget] at hwalk
  have hlt : m (va - va % 4096) < 2 ^ 32 := by
    rw [← hget]
    exact read32_lt _ _
  generalize he : m (va - va % 4096) = e at hlt hwalk
  split at hwalk
  · cases hwalk
  rename_i hpresent
  rw [table_of_eq e hlt, Option.some.injEq] at hwalk
  have hmod : x % 4096 = va % 4096 := by omega
  have hpage : x - x % 4096 = e / 4096 * 4096 := by omega
  refine ⟨?_, hmod⟩
  rw [hpage]
  refine ⟨by omega, e % 4096, Nat.mod_lt _ (by decide), ?_, ?_⟩
  · have hbit : e &&& 1 ≠ 0 := fun h0 => hpresent (Or.inr h0)
    rw [Nat.and_one_is_mod] at hbit ⊢
    omega
  · rw [he, or_eq_add _ _ (Nat.mul_mod_left _ _) (Nat.mod_lt _ (by decide))]
    omega

/-- A copy between bytes that are all mapped. The places are not in the directory, and no byte is both read and
written. -/
theorem memcpy_paged_copies (hk : k.HeapOk) (len dest src : Nat) (place source : Nat → Nat) (mem : Nat → UInt8)
    (h : Holds { k with mem := mem } chunk dir table 7 m) (hd : dest < 2 ^ 32) (hs : src < 2 ^ 32)
    (hplace : ∀ j < len, Reaches m ((dest + j) % 2 ^ 32) (place j))
    (hout : ∀ j < len, ¬ InDir chunk dir table (place j - place j % 4096))
    (hsource : ∀ j < len, Reaches m ((src + j) % 2 ^ 32) (source j))
    (hapart : ∀ a < len, ∀ b < len, place a ≠ source b) (hinj : ∀ a < len, ∀ b < len, place a = place b → a = b) :
    ∃ mem', memcpy_paged dir len dest src mem = some mem' ∧ Holds { k with mem := mem' } chunk dir table 7 m ∧
      Copied mem mem' place (fun j => mem (source j)) len := by
  induction len generalizing dest src mem place source with
  | zero => exact ⟨mem, rfl, h, fun j hj => by omega, fun _ _ => rfl⟩
  | succ len ih =>
    have hk' := heapOk_write hk mem
    have hwalk := page_walk_reaches hk' h src (source 0) hs (by
      have := hsource 0 (Nat.succ_pos len)
      rwa [Nat.add_zero, Nat.mod_eq_of_lt hs] at this)
    have hwalk' := page_walk_reaches hk' h dest (place 0) hd (by
      have := hplace 0 (Nat.succ_pos len)
      rwa [Nat.add_zero, Nat.mod_eq_of_lt hd] at this)
    dsimp only at hwalk hwalk'
    have hkeep := holds_outside hk' h _ (by omega) (hout 0 (Nat.succ_pos len))
      (fun x => if x = place 0 then mem (source 0) else mem x) fun x hx => if_neg (by omega)
    have hu : ∀ y : Nat, u32 ((y : Int) + 1) = (y + 1) % 2 ^ 32 := fun y => u32_natCast (y + 1)
    have hnext : ∀ y j, ((y + 1) % 2 ^ 32 + j) % 2 ^ 32 = (y + (j + 1)) % 2 ^ 32 := fun y j => by omega
    obtain ⟨mem', heq, hholds, hc⟩ := ih ((dest + 1) % 2 ^ 32) ((src + 1) % 2 ^ 32) (fun j => place (j + 1))
      (fun j => source (j + 1)) _ hkeep (Nat.mod_lt _ (by decide)) (Nat.mod_lt _ (by decide))
      (fun j hj => by rw [hnext]; exact hplace (j + 1) (by omega)) (fun j hj => hout (j + 1) (by omega))
      (fun j hj => by rw [hnext]; exact hsource (j + 1) (by omega))
      (fun a ha b hb => hapart (a + 1) (by omega) (b + 1) (by omega))
      (fun a ha b hb hab => by have := hinj (a + 1) (by omega) (b + 1) (by omega) hab; omega)
    refine ⟨mem', ?_, hholds, copied_cons place _ len ?_ ⟨?_, hc.others⟩⟩
    · rw [memcpy_paged, hwalk, hwalk', hu, hu]
      exact heq
    · intro j hj h0
      have := hinj 0 (Nat.succ_pos len) (j + 1) (by omega) h0
      omega
    · intro j hj
      rw [hc.bytes j hj]
      exact if_neg (hapart 0 (Nat.succ_pos len) (j + 1) (by omega)).symm

theorem u32_index (a j : Nat) : u32 ((a : Int) + ((0 + j : Nat) : Int)) = (a + j) % 2 ^ 32 := by
  rw [Nat.zero_add, ← Int.natCast_add, u32_natCast]

theorem strncpy_paged_copies (hk : k.HeapOk) (tmp user n l : Nat) (source : Nat → Nat) (mem : Nat → UInt8)
    (h : Holds { k with mem := mem } chunk dir table 7 m) (hal : tmp % 4096 = 0) (hn : n < 4096)
    (hself : ∀ j < 4096, Reaches m ((tmp + j) % 2 ^ 32) (tmp + j)) (hout : ¬ InDir chunk dir table tmp)
    (hsource : ∀ j < n, Reaches m ((user + j) % 2 ^ 32) (source j)) (hapart : ∀ j < n, ¬ InPage tmp (source j))
    (hle : l ≤ n) (hne : ∀ j < l, mem (source j) ≠ 0) (hzero : l < n → mem (source l) = 0) :
    ∃ mem', strncpy_walk (fun mem a => page_walk mem dir a) tmp user n 0 mem = some mem' ∧
      Holds { k with mem := mem' } chunk dir table 7 m ∧
      Copied mem mem' (fun j => tmp + j) (cut (fun j => mem (source j)) l) (l + 1) := by
  apply strncpy_walk_spec _ (fun mem => Holds { k with mem := mem } chunk dir table 7 m) tmp user
    (fun j => tmp + j) source n 0 l mem h
  · intro mem hm j hj
    rw [u32_index]
    exact page_walk_reaches (heapOk_write hk mem) hm _ _ (Nat.mod_lt _ (by decide)) (hself j (by omega))
  · intro mem hm j hj
    rw [u32_index]
    exact page_walk_reaches (heapOk_write hk mem) hm _ _ (Nat.mod_lt _ (by decide)) (hsource j hj)
  · intro mem hm j hj v
    exact holds_outside (heapOk_write hk mem) hm tmp hal hout _ fun x hx => if_neg (by omega)
  · intro a ha b hb heq
    exact hapart b hb ⟨by omega, by omega⟩
  · intro a ha b hb heq
    omega
  · exact hle
  · exact hne
  · exact hzero

theorem strncpy_kernel_copies (buf tmp n l : Nat) (mem : Nat → UInt8) (hbuf : buf + n < 2 ^ 32)
    (htmp : tmp + n ≤ 2 ^ 32) (hapart : ∀ a ≤ n, ∀ b < n, buf + a ≠ tmp + b) (hle : l ≤ n)
    (hne : ∀ j < l, mem (tmp + j) ≠ 0) (hzero : l < n → mem (tmp + l) = 0) :
    ∃ mem', strncpy_walk kernel_walk buf tmp n 0 mem = some mem' ∧
      Copied mem mem' (fun j => buf + j) (cut (fun j => mem (tmp + j)) l) (l + 1) := by
  obtain ⟨mem', heq, -, hc⟩ := strncpy_walk_spec kernel_walk (fun _ => True) buf tmp (fun j => buf + j)
    (fun j => tmp + j) n 0 l mem trivial
    (fun _ _ j hj => by rw [u32_index, Nat.mod_eq_of_lt (by omega)]; rfl)
    (fun _ _ j hj => by rw [u32_index, Nat.mod_eq_of_lt (by omega)]; rfl) (fun _ _ _ _ _ => trivial) hapart
    (fun a ha b hb heq => by omega) hle hne hzero
  exact ⟨mem', heq, hc⟩

theorem write_entry_of_out (hk : k.HeapOk) (h : PageDir k chunk dir table 7) (virt val x : Nat) (hlt : virt < 2 ^ 32)
    (hx : ¬ InDir chunk dir table (x - x % 4096)) : write32 mem (entryAddr table virt) val x = mem x := by
  have hin : InDir chunk dir table (table (virt / 4194304)) := Or.inr (Or.inr ⟨_, by omega, rfl⟩)
  have hta := (usedAt_aligned hk _ (inDir_used h _ hin)).1
  have hne : table (virt / 4194304) ≠ x - x % 4096 := fun heq => hx (heq ▸ hin)
  apply write32_of_not
  unfold entryAddr
  omega

/-- After the entry of `tmp` has been set back, the bytes where `Q` holds are as they were before that, and all others
as they were before the page was mapped. -/
theorem set_back_frame (hk : k.HeapOk) (h : Holds k chunk dir table 7 m) (tmp : Nat) (hal : tmp % 4096 = 0)
    (htlt : tmp < 2 ^ 32) (Q : Nat → Prop) (hQ : ∀ x, Q x → ¬ InDir chunk dir table (x - x % 4096))
    (hmem : Holds { k with mem := mem } chunk dir table 7 (m.set tmp (tmp ||| 7)))
    (hframe : ∀ x, ¬ Q x → mem x = write32 k.mem (entryAddr table tmp) (tmp ||| 7) x) :
    ∃ mem', paging_set mem (read32 k.mem chunk) tmp (paging_get k.mem (read32 k.mem chunk) tmp) = (0, mem') ∧
      (∀ x, Q x → mem' x = mem x) ∧ ∀ x, ¬ Q x → mem' x = k.mem x := by
  refine ⟨_, set_back hk h tmp hal htlt mem hmem.pageDir, ?_, write32_back k.mem mem _ Q _ hframe⟩
  intro x hx
  exact write_entry_of_out hk h.pageDir tmp _ x htlt (hQ x hx)

/-! ## The two functions -/

/-- The directory of a task is in blocks of the heap. -/
structure TaskDir (k : Kernel) (task dir : Nat) (table : Nat → Nat) : Prop where
  heap : k.HeapOk
  pageDir : PageDir k (k.tasks.task task).page_directory dir table 7

/-- What is mapped outside of the heap addresses is not a page of the directory. -/
structure TaskSpace (k : Kernel) (task dir : Nat) (table : Nat → Nat) : Prop extends TaskDir k task dir table where
  apart : ∀ va x, ¬ k.HeapAddress (va % 2 ^ 32) → k.userAddress task va = some x →
    ¬ InDir (k.tasks.task task).page_directory dir table (x - x % 4096)

/-- A range of the task. It is not in the pages of the directory, and `tmp` is not one of its pages. -/
structure Placed (k : Kernel) (task dir : Nat) (table : Nat → Nat) (user n : Nat) (phys : Nat → Nat) (tmp : Nat) :
    Prop where
  mapped : ∀ i < n, k.userAddress task (user + i) = some (phys i)
  out : ∀ i < n, ¬ InDir (k.tasks.task task).page_directory dir table (phys i - phys i % 4096)
  clear : ∀ i < n, ¬ InPage tmp ((user + i) % 2 ^ 32)

/-- What the directory maps. -/
def entries (k : Kernel) (dir : Nat) : FlatMap := fun v => paging_get k.mem dir v

theorem holds_entries (h : TaskDir k task dir table) :
    Holds k (k.tasks.task task).page_directory dir table 7 (entries k dir) := ⟨h.pageDir, fun _ _ _ => rfl⟩

theorem placed_of_range {user n : Nat} (h : TaskSpace k task dir table) (hr : k.UserRange task user n phys) (tmp : Nat)
    (htmp : k.HeapAddress tmp) (hal : tmp % 4096 = 0) : Placed k task dir table user n phys tmp := by
  refine ⟨hr.mapped, ?_, ?_⟩
  · intro i hi
    exact h.apart _ _ (hr.outside i hi) (hr.mapped i hi)
  · intro i hi hin
    have hout := hr.outside i hi
    have hs := h.heap.aligned
    unfold HeapAddress at htmp hout
    unfold InPage at hin
    omega

section Range

variable {user n tmp : Nat} (h : TaskDir k task dir table) (hp : Placed k task dir table user n phys tmp)

include h hp

theorem placed_reaches (i : Nat) (hi : i < n) : Reaches (entries k dir) ((user + i) % 2 ^ 32) (phys i) := by
  have hmap := hp.mapped i hi
  unfold userAddress at hmap
  rw [h.pageDir.chunk_eq] at hmap
  exact reaches_of_walk h.heap (holds_entries h) _ _ (Nat.mod_lt _ (by decide)) hmap

theorem placed_reaches_set (val : Nat) (hal : tmp % 4096 = 0) (i : Nat) (hi : i < n) :
    Reaches ((entries k dir).set tmp val) ((user + i) % 2 ^ 32) (phys i) := by
  obtain ⟨hleads, hmod⟩ := placed_reaches h hp i hi
  refine ⟨leads_other tmp _ _ _ ?_ hleads, hmod⟩
  have hclear := hp.clear i hi
  unfold InPage at hclear
  omega

theorem placed_inj (hn : n ≤ 4096) (i j : Nat) (hi : i < n) (hj : j < n) (heq : phys i = phys j) : i = j := by
  have h1 := (placed_reaches h hp i hi).2
  have h2 := (placed_reaches h hp j hj).2
  omega

end Range

theorem sameTables_of_frame (h : TaskDir k task dir table)
    (hframe : ∀ x, InDir (k.tasks.task task).page_directory dir table (x - x % 4096) → k'.mem x = k.mem x) :
    k.SameTables k' table := by
  intro i hi j hj
  have hal := (usedAt_aligned h.heap _ (h.pageDir.table_used i hi)).1
  refine read32_congr _ _ fun o ho => hframe _ (Or.inr (Or.inr ⟨i, hi, ?_⟩))
  omega

/-- A block that `kzalloc` gave for one page. -/
structure FreshPage (k k' : Kernel) (tmp : Nat) : Prop where
  aligned : tmp % 4096 = 0
  lt : tmp < 2 ^ 32
  heap : k.HeapAddress tmp
  out : ∀ chunk dir table f, PageDir k chunk dir table f → ¬ InDir chunk dir table tmp
  taken : ∀ a, k.Taken a → a ≠ tmp
  since : k.Since k'
  tasks : k'.tasks = k.tasks
  zero : ∀ x, ¬ InPage tmp x → k'.mem x = k.mem x
  back : ∀ i, tmp ≠ k.blockAddr i → (k'.kfree tmp).heap.table.entries i = k.heap.table.entries i

theorem freshPage_kzalloc (hk : k.HeapOk) (size : Nat) (h1 : 1 ≤ size) (h2 : size ≤ 4096)
    (hne : (k.kzalloc size).1 ≠ 0) : FreshPage k (k.kzalloc size).2 (k.kzalloc size).1 := by
  obtain ⟨r, hall⟩ := kzalloc_spec hk size h1 (by omega) hne
  have hpage := page_of_allocated size r hall (one_block size h1 h2)
  rw [← hall.addr] at hpage
  obtain ⟨hal, hlt⟩ := usedAt_aligned (since_heapOk hall.since hk) _ hpage.2
  refine ⟨hal, hlt, ?_, ?_, fun a ha => taken_ne hall.since a _ ha hpage, hall.since, hall.tasks, ?_, ?_⟩
  · have := hall.lt
    rw [hall.addr]
    unfold HeapAddress blockAddr
    omega
  · intro chunk dir table f hd hin
    exact page_ne hall.since _ _ hpage (inDir_used hd _ hin) rfl
  · intro x hx
    apply hall.mem
    rw [← hall.addr]
    unfold InPage at hx
    omega
  · intro i hi
    have hone := one_block size h1 h2
    have hne : i ≠ r := by
      rintro rfl
      exact hi hall.addr
    rw [hall.addr, ← since_addr hall.since, kfree_single (since_heapOk hall.since hk) r
      (hall.since.total ▸ hall.lt) (hall.single hone)]
    exact (if_neg hne).trans (hall.others i (by omega))

theorem reaches_self (m : FlatMap) (tmp j : Nat) (hal : tmp % 4096 = 0) (htlt : tmp < 2 ^ 32) (hj : j < 4096) :
    Reaches (m.set tmp (tmp ||| 7)) ((tmp + j) % 2 ^ 32) (tmp + j) := by
  rw [Nat.mod_eq_of_lt (by omega)]
  refine ⟨?_, rfl⟩
  rw [show tmp + j - (tmp + j) % 4096 = tmp by omega]
  exact leads_self m tmp hal htlt _ (by omega)

theorem page_of_inPage (tmp x : Nat) (hal : tmp % 4096 = 0) (hx : InPage tmp x) : x - x % 4096 = tmp := by
  unfold InPage at hx
  omega

/-! ### After the copy -/

section Done

variable {k1 : Kernel} {tmp : Nat} (hf : FreshPage k k1 tmp)

include hf

theorem freshPage_memory (x : Nat) (hx : ¬ InPage tmp x) (ht : ¬ k.TableByte x) : k1.memory x = k.mem x := by
  rw [memory_of_not (mt (tableByte_iff hf.since.saddr hf.since.total x).mp ht)]
  exact hf.zero x hx

theorem freshPage_tableByte (x : Nat) (ht : k.TableByte x) : ¬ InPage tmp x := by
  have hlt := ht.2.2
  have hle := hf.heap.1
  rintro ⟨hin, -⟩
  omega

theorem done_place (x : Nat) (ht : ¬ k.TableByte x) : ((k1.setMemory mem).kfree tmp).mem x = mem x :=
  if_neg (mt (tableByte_iff hf.since.saddr hf.since.total x).mp ht)

theorem done_mem (x : Nat) (hx : ¬ InPage tmp x) (hmem : mem x = k1.memory x) :
    ((k1.setMemory mem).kfree tmp).mem x = k.mem x := by
  show (k1.setMemory mem).mem x = k.mem x
  rw [setMemory_mem]
  split
  · exact hf.zero x hx
  · rename_i hout
    rw [hmem, memory_of_not hout]
    exact hf.zero x hx

theorem done_tableByte (x : Nat) : ((k1.setMemory mem).kfree tmp).TableByte x ↔ k.TableByte x := by
  apply tableByte_iff
  · exact hf.since.saddr
  · exact (heap_free_frees (k1.setMemory mem).heap tmp).1.trans hf.since.total

theorem done_memory_place (x : Nat) (ht : ¬ k.TableByte x) : ((k1.setMemory mem).kfree tmp).memory x = mem x := by
  rw [memory_of_not (mt (done_tableByte hf x).mp ht)]
  exact done_place hf x ht

theorem done_memory (htable : ∀ x, k.TableByte x → mem x = k1.memory x) (x : Nat) (hx : ¬ k.Spare tmp x)
    (hmem : mem x = k1.memory x) : ((k1.setMemory mem).kfree tmp).memory x = k.memory x := by
  have hpage : ¬ InPage tmp x := fun hin => hx (Or.inl hin)
  by_cases hin : k.TableByte x
  · have hheap : (k1.setMemory mem).heap = k1.heap :=
      setMemory_heap mem fun y hy => htable y ((tableByte_iff hf.since.saddr hf.since.total y).mp hy)
    have hentries : ((k1.setMemory mem).kfree tmp).heap = (k1.kfree tmp).heap := by
      unfold kfree
      rw [hheap]
    unfold memory
    rw [if_pos ((done_tableByte hf x).mpr hin), if_pos hin, hentries]
    apply hf.back
    intro heq
    apply hx
    have hle := hin.1
    refine Or.inr ?_
    unfold blockAddr at heq
    rw [heq, Nat.add_sub_cancel_left, show PEACHOS_HEAP_BLOCK_SIZE = 4096 from rfl, Nat.mul_div_cancel _ (by decide)]
    omega
  · rw [memory_of_not (mt (done_tableByte hf x).mp hin), memory_of_not hin]
    exact done_mem hf x hpage hmem

end Done

/-! ### The copies -/

theorem copy_string_eq (task virt buf max : Nat) (res : Nat × Kernel) (hlt : max < 4096) (hres : k.kzalloc max = res)
    (hne : res.1 ≠ 0) :
    k.copy_string_from_task task virt buf max =
      let chunk := (res.2.tasks.task task).page_directory
      let mem := (paging_map res.2.memory chunk res.1 res.1 7).2
      let directory := read32 mem chunk
      (strncpy_walk (fun mem a => page_walk mem directory a) res.1 virt (max - 1) 0 mem).bind fun mem =>
        let set := paging_set mem (read32 res.2.memory chunk) res.1
          (paging_get res.2.memory (read32 res.2.memory chunk) res.1)
        if set.1 < 0 then some (- EIO, (res.2.setMemory set.2).kfree res.1) else
        (strncpy_walk kernel_walk buf res.1 (max - 1) 0 set.2).map fun mem =>
          (set.1, (res.2.setMemory mem).kfree res.1) := by
  subst hres
  unfold copy_string_from_task
  rw [if_neg (show ¬ max ≥ PAGING_PAGE_SIZE by unfold PAGING_PAGE_SIZE; omega)]
  dsimp only
  rw [if_neg hne]
  rfl

theorem copy_string_null (task virt buf max : Nat) (hlt : max < 4096) (hnull : (k.kzalloc max).1 = 0) :
    k.copy_string_from_task task virt buf max = some (-ENOMEM, (k.kzalloc max).2) := by
  unfold copy_string_from_task
  rw [if_neg (show ¬ max ≥ PAGING_PAGE_SIZE by unfold PAGING_PAGE_SIZE; omega)]
  dsimp only
  rw [if_pos hnull]

theorem apart_of_not_inPage {tmp buf n : Nat} (h1 : 1 ≤ n) (hn : n ≤ 4096) (hbuf : ∀ i < n, ¬ InPage tmp (buf + i)) :
    tmp + n ≤ buf ∨ buf + n ≤ tmp := by
  by_contra hno
  rcases Nat.lt_or_ge buf tmp with hb | hb
  · exact hbuf (tmp - buf) (by omega) ⟨by omega, by omega⟩
  · exact hbuf 0 (by omega) ⟨by omega, by omega⟩

section Copies

variable {user n : Nat} (h : TaskDir k task dir table) (hp : Placed k task dir table user n phys (k.kzalloc n).1)
  (h1 : 1 ≤ n) (hlt : n < 4096) (hapart : ∀ i < n, ¬ InPage (k.kzalloc n).1 (phys i)) (hne : (k.kzalloc n).1 ≠ 0)

include h hp h1 hlt hapart hne

theorem copy_to_task_stores (huser : user < 2 ^ 32) (buf : Nat) (hbuf : ∀ i < n, ¬ InPage (k.kzalloc n).1 (buf + i)) :
    ∃ mem', k.copy_to_task task user buf n =
        some (0, ((k.kzalloc n).2.setMemory mem').kfree (k.kzalloc n).1) ∧
      CopiedTo (k.kzalloc n).2.memory mem' (InPage (k.kzalloc n).1) buf n phys := by
  have hf := freshPage_kzalloc h.heap n h1 (by omega) hne
  rw [copy_to_task_eq task user buf n _ hlt rfl hne]
  generalize (k.kzalloc n).1 = tmp at *
  generalize (k.kzalloc n).2 = k1 at *
  have hal := hf.aligned
  have htlt := hf.lt
  have hdir := h.pageDir
  have hreach := placed_reaches_set h hp (tmp ||| 7) hal
  have hout := hp.out
  have hk1 := since_heapOk hf.since h.heap
  have hheld := holds_memory hk1 (holds_since h.heap (holds_entries h) hf.since)
  dsimp only
  rw [hf.tasks]
  generalize (k.tasks.task task).page_directory = chunk at *
  have htmp := hf.out _ _ _ _ hdir
  -- The block is filled, and then mapped.
  have hk2 := heapOk_write hk1 (memcpy k1.memory tmp buf n)
  have hheld2 := holds_outside (heapOk_write hk1 k1.memory) hheld tmp hal htmp (memcpy k1.memory tmp buf n)
    fun x hx => memcpy_of_not _ _ _ _ (by omega)
  obtain ⟨hmap, hmapped⟩ := map_self hk2 hheld2 tmp hal htlt
  dsimp only at hmap hmapped
  rw [hmap]
  dsimp only
  obtain ⟨mem', hcopy, hheld', hc⟩ :=
    memcpy_paged_copies hk2 n user tmp phys (fun j => tmp + j) _ hmapped huser htlt hreach hout
    (fun j hj => reaches_self _ tmp j hal htlt (by omega)) (fun a ha b hb heq => hapart a ha ⟨by omega, by omega⟩)
    (fun a ha b hb => placed_inj h hp (by omega) a b ha hb)
  obtain ⟨mem'', hset, hplaces, hothers⟩ := set_back_frame hk2 hheld2 tmp hal htlt (fun x => ∃ j < n, x = phys j)
    (by rintro x ⟨j, hj, rfl⟩; exact hout j hj) hheld' (fun x hx => hc.others x fun j hj heq => hx ⟨j, hj, heq⟩)
  dsimp only at hset hothers
  rw [hmapped.pageDir.chunk_eq, hcopy, Option.map_some, hset]
  refine ⟨mem'', rfl, ?_, ?_⟩
  · intro i hi
    refine (hplaces _ ⟨i, hi, rfl⟩).trans ((hc.bytes i hi).trans ?_)
    rw [write_entry_of_out h.heap hdir tmp _ _ htlt (by rwa [show tmp + i - (tmp + i) % 4096 = tmp by omega]),
      memcpy_copies _ _ _ (apart_of_not_inPage h1 (by omega) hbuf) i hi]
  · intro x hx hplace
    refine (hothers x ?_).trans ?_
    · rintro ⟨j, hj, heq⟩
      exact hplace j hj heq
    · apply memcpy_of_not
      intro hin
      exact hx ⟨hin.1, by omega⟩

theorem copy_string_stores (buf : Nat) (hend : buf + n ≤ 2 ^ 32) (hbuf : ∀ i < n, ¬ InPage (k.kzalloc n).1 (buf + i)) :
    ∃ mem', k.copy_string_from_task task user buf n =
        some (0, ((k.kzalloc n).2.setMemory mem').kfree (k.kzalloc n).1) ∧
      CopiedString (k.kzalloc n).2.memory mem' (InPage (k.kzalloc n).1) buf n phys := by
  have hf := freshPage_kzalloc h.heap n h1 (by omega) hne
  rw [copy_string_eq task user buf n _ hlt rfl hne]
  generalize (k.kzalloc n).1 = tmp at *
  generalize (k.kzalloc n).2 = k1 at *
  have hal := hf.aligned
  have htlt := hf.lt
  have hdir := h.pageDir
  have hreach := placed_reaches_set h hp (tmp ||| 7) hal
  have hout := hp.out
  have hk1 := since_heapOk hf.since h.heap
  have hheld := holds_memory hk1 (holds_since h.heap (holds_entries h) hf.since)
  have hk2 := heapOk_write hk1 k1.memory
  dsimp only
  rw [hf.tasks]
  generalize (k.tasks.task task).page_directory = chunk at *
  have htmp := hf.out _ _ _ _ hdir
  obtain ⟨hmap, hmapped⟩ := map_self hk2 hheld tmp hal htlt
  dsimp only at hmap hmapped
  rw [hmap]
  dsimp only
  rw [hmapped.pageDir.chunk_eq]
  -- The string of the task, before and after the page is mapped.
  have hsame : ∀ j < n, write32 k1.memory (entryAddr table tmp) (tmp ||| 7) (phys j) = k1.memory (phys j) := by
    intro j hj
    exact write_entry_of_out h.heap hdir tmp _ _ htlt (hout j hj)
  generalize hlen : stringLength (fun i => k1.memory (phys i)) (n - 1) = l
  have hle := stringLength_le (fun i => k1.memory (phys i)) (n - 1)
  have hchars := stringLength_ne (fun i => k1.memory (phys i)) (n - 1)
  have hzero := stringLength_eq_zero (fun i => k1.memory (phys i)) (n - 1)
  rw [hlen] at hle hchars hzero
  obtain ⟨mem2, hcopy, hheld2, hc2⟩ := strncpy_paged_copies hk2 tmp user (n - 1) l phys _ hmapped hal (by omega)
    (fun j hj => reaches_self _ tmp j hal htlt hj) htmp (fun j hj => hreach j (by omega))
    (fun j hj => hapart j (by omega)) hle (fun j hj => by rw [hsame j (by omega)]; exact hchars j hj)
    (fun hl => by rw [hsame l (by omega)]; exact hzero hl)
  rw [hcopy, Option.bind_some]
  obtain ⟨mem3, hset, hplaces, hothers⟩ := set_back_frame hk2 hheld tmp hal htlt (InPage tmp)
    (fun x hx => by rwa [page_of_inPage tmp x hal hx]) hheld2
    (fun x hx => hc2.others x fun j hj heq => hx ⟨by omega, by omega⟩)
  dsimp only at hset hothers
  rw [hset]
  simp only [Int.lt_irrefl, if_false]
  -- The string in the block.
  have hblock : ∀ j ≤ l, mem3 (tmp + j) = cut (fun j => k1.memory (phys j)) l j := by
    intro j hj
    rw [hplaces _ ⟨by omega, by omega⟩, hc2.bytes j (by omega)]
    unfold cut
    split
    · exact hsame j (by omega)
    · rfl
  obtain ⟨mem4, hcopy', hc4⟩ := strncpy_kernel_copies buf tmp (n - 1) l mem3 (by omega) (by omega)
    (fun a ha b hb heq => hbuf a (by omega) ⟨by omega, by omega⟩) hle
    (fun j hj => by rw [hblock j (by omega), cut, if_pos hj]; exact hchars j hj)
    (fun hl => by rw [hblock l (by omega), cut, if_neg (by omega)])
  rw [hcopy', Option.map_some]
  refine ⟨mem4, rfl, ?_, ?_, ?_⟩
  · intro i hi
    rw [hlen] at hi
    refine (hc4.bytes i (by omega)).trans ?_
    rw [cut, if_pos hi]
    exact (hblock i (by omega)).trans (if_pos hi)
  · rw [hlen]
    exact (hc4.bytes l (by omega)).trans (if_neg (Nat.lt_irrefl l))
  · intro x hx hbufx
    rw [hlen] at hbufx
    refine (hc4.others x ?_).trans (hothers x hx)
    intro j hj heq
    exact hbufx ⟨by omega, by omega⟩

theorem copy_to_task_copies (huser : user < 2 ^ 32) (buf : Nat) (hbuf : ∀ i < n, ¬ InPage (k.kzalloc n).1 (buf + i))
    (hkernel : ∀ i < n, ¬ k.TableByte (buf + i)) (htable : ∀ i < n, ¬ k.TableByte (phys i)) :
    ∃ k', k.copy_to_task task user buf n = some (0, k') ∧
      CopiedTo k.mem k'.mem (InPage (k.kzalloc n).1) buf n phys ∧
      CopiedTo k.memory k'.memory (k.Spare (k.kzalloc n).1) buf n phys := by
  obtain ⟨mem', heq, hc⟩ := copy_to_task_stores h hp h1 hlt hapart hne huser buf hbuf
  have hf := freshPage_kzalloc h.heap n h1 (by omega) hne
  have hbytes : ∀ i < n, mem' (phys i) = k.mem (buf + i) := fun i hi =>
    (hc.bytes i hi).trans (freshPage_memory hf _ (hbuf i hi) (hkernel i hi))
  refine ⟨_, heq, ⟨?_, ?_⟩, ?_, ?_⟩
  · intro i hi
    exact (done_place hf _ (htable i hi)).trans (hbytes i hi)
  · intro x hx hplace
    exact done_mem hf x hx (hc.others x hx hplace)
  · intro i hi
    rw [memory_of_not (hkernel i hi)]
    exact (done_memory_place hf _ (htable i hi)).trans (hbytes i hi)
  · intro x hx hplace
    refine done_memory hf ?_ x hx (hc.others x (fun hin => hx (Or.inl hin)) hplace)
    intro y hy
    apply hc.others y (freshPage_tableByte hf y hy)
    rintro i hi rfl
    exact htable i hi hy

theorem copy_string_copies (buf : Nat) (hend : buf + n ≤ 2 ^ 32) (hbuf : ∀ i < n, ¬ InPage (k.kzalloc n).1 (buf + i))
    (hkernel : ∀ i < n, ¬ k.TableByte (buf + i)) (htable : ∀ i < n, ¬ k.TableByte (phys i)) :
    ∃ k', k.copy_string_from_task task user buf n = some (0, k') ∧
      CopiedString k.mem k'.mem (InPage (k.kzalloc n).1) buf n phys ∧
      CopiedString k.memory k'.memory (k.Spare (k.kzalloc n).1) buf n phys := by
  obtain ⟨mem', heq, hc⟩ := copy_string_stores h hp h1 hlt hapart hne buf hend hbuf
  have hf := freshPage_kzalloc h.heap n h1 (by omega) hne
  have hsame : ∀ i < n, (k.kzalloc n).2.memory (phys i) = k.mem (phys i) := fun i hi =>
    freshPage_memory hf _ (hapart i hi) (htable i hi)
  have hsame' : ∀ i < n, k.memory (phys i) = k.mem (phys i) := fun i hi => memory_of_not (htable i hi)
  have hle := stringLength_le (fun i => k.mem (phys i)) (n - 1)
  obtain ⟨hbytes, hnul, hothers⟩ := hc
  rw [stringLength_congr (n - 1) fun i hi => hsame i (by omega)] at hbytes hnul hothers
  refine ⟨_, heq, ⟨?_, ?_, ?_⟩, ?_⟩
  · intro i hi
    exact (done_place hf _ (hkernel i (by omega))).trans ((hbytes i hi).trans (hsame i (by omega)))
  · exact (done_place hf _ (hkernel _ (by omega))).trans hnul
  · intro x hx hout
    exact done_mem hf x hx (hothers x hx hout)
  · constructor <;> rw [stringLength_congr (n - 1) fun i hi => hsame' i (by omega)]
    · intro i hi
      rw [hsame' i (by omega)]
      exact (done_memory_place hf _ (hkernel i (by omega))).trans ((hbytes i hi).trans (hsame i (by omega)))
    · exact (done_memory_place hf _ (hkernel _ (by omega))).trans hnul
    · intro x hx hout
      refine done_memory hf ?_ x hx (hothers x (fun hin => hx (Or.inl hin)) hout)
      intro y hy
      apply hothers y (freshPage_tableByte hf y hy)
      rintro ⟨hlo, hhi⟩
      apply hkernel (y - buf) (by omega)
      rwa [Nat.add_sub_cancel' hlo]

end Copies

/-- Bytes are moved between the kernel and the task through its directory, and the page tables are as before, also when
there is no block for the copy. -/
theorem task_copies (h : TaskSpace k task dir table) (user : UInt32) (n : Nat) (h1 : 1 ≤ n) (hlt : n < 4096)
    (hr : k.UserRange task user.toNat n phys) (hapart : ∀ i < n, ¬ InPage (k.kzalloc n).1 (phys i)) :
    (∀ buf, (∀ i < n, ¬ InPage (k.kzalloc n).1 (buf + i)) → (∀ i < n, ¬ k.TableByte (buf + i)) →
      ∃ r k', k.copy_to_task task user.toNat buf n = some (r, k') ∧ k.SameTables k' table ∧
        if (k.kzalloc n).1 = 0 then r = -ENOMEM ∧ k'.memory = k.memory
        else r = 0 ∧ CopiedTo k.memory k'.memory (k.Spare (k.kzalloc n).1) buf n phys) ∧
    (∀ buf, buf + n ≤ 2 ^ 32 → (∀ i < n, ¬ InPage (k.kzalloc n).1 (buf + i)) → (∀ i < n, ¬ k.TableByte (buf + i)) →
      (∀ i < n, ¬ InDir (k.tasks.task task).page_directory dir table ((buf + i) - (buf + i) % 4096)) →
      ∃ r k', k.copy_string_from_task task user.toNat buf n = some (r, k') ∧ k.SameTables k' table ∧
        if (k.kzalloc n).1 = 0 then r = -ENOMEM ∧ k'.memory = k.memory
        else r = 0 ∧ CopiedString k.memory k'.memory (k.Spare (k.kzalloc n).1) buf n phys) := by
  by_cases hnull : (k.kzalloc n).1 = 0
  · -- Nothing has been done.
    have hmem := kzalloc_null_mem n hnull
    have hmemory := memory_same (kzalloc_null_heap h.heap n hnull) hmem
    have hsame : k.SameTables (k.kzalloc n).2 table := fun _ _ _ _ => by rw [hmem]
    simp only [hnull, if_true]
    refine ⟨?_, ?_⟩
    · intro buf _ _
      exact ⟨_, _, copy_to_task_null task _ buf n hlt hnull, hsame, rfl, hmemory⟩
    · intro buf _ _ _ _
      exact ⟨_, _, copy_string_null task _ buf n hlt hnull, hsame, rfl, hmemory⟩
  · have htmp := freshPage_kzalloc h.heap n h1 (by omega) hnull
    have hpage : ∀ x, InDir (k.tasks.task task).page_directory dir table (x - x % 4096) →
        ¬ InPage (k.kzalloc n).1 x := by
      intro x hin hx
      rw [page_of_inPage _ x htmp.aligned hx] at hin
      exact htmp.out _ _ _ _ h.pageDir hin
    have hp := placed_of_range h hr _ htmp.heap htmp.aligned
    have htable : ∀ i < n, ¬ k.TableByte (phys i) := fun i hi hin => hr.apart i hi (Or.inl hin)
    simp only [hnull, if_false]
    refine ⟨?_, ?_⟩
    · intro buf hbuf hkernel
      obtain ⟨k', heq, hc, hc'⟩ := copy_to_task_copies h.toTaskDir hp h1 hlt hapart hnull user.toNat_lt buf hbuf hkernel
        htable
      refine ⟨0, k', heq, sameTables_of_frame h.toTaskDir ?_, rfl, hc'⟩
      intro x hx
      apply hc.others x (hpage x hx)
      rintro i hi rfl
      exact hp.out i hi hx
    · intro buf hend hbuf hkernel hout
      obtain ⟨k', heq, hc, hc'⟩ := copy_string_copies h.toTaskDir hp h1 hlt hapart hnull buf hend hbuf hkernel htable
      have hle := stringLength_le (fun i => k.mem (phys i)) (n - 1)
      refine ⟨0, k', heq, sameTables_of_frame h.toTaskDir ?_, rfl, hc'⟩
      intro x hx
      apply hc.others x (hpage x hx)
      rintro ⟨hlo, hhi⟩
      apply hout (x - buf) (by omega)
      rwa [Nat.add_sub_cancel' hlo]

/-! ## Tasks of loaded processes -/

theorem leads_unique (va a b : Nat) (ha : Leads m va a) (hb : Leads m va b) : a = b := by
  obtain ⟨⟨haa, halt⟩, f, hf, -, hma⟩ := ha
  obtain ⟨⟨hba, hblt⟩, g, hg, -, hmb⟩ := hb
  rw [← table_of_or a f haa halt hf, ← table_of_or b g hba hblt hg, ← hma, ← hmb]

theorem holds_loaded {process : Nat} (h : Loaded k process dir table) :
    Holds k (k.tasks.task (k.process process).task).page_directory dir table 7 (LoadedMap (k.process process)) :=
  ⟨h.pageDir, h.map⟩

theorem loaded_leads {process : Nat} (h : Loaded k process dir table) (va : Nat) (hva : va < 2 ^ 32) :
    (k.InPages process va ∧ ∃ a, OwnPage (k.process process) a ∧ Leads (LoadedMap (k.process process)) va a) ∨
    (¬ k.InPages process va ∧ Leads (LoadedMap (k.process process)) va (va - va % 4096)) := by
  by_cases hin : k.InPages process va
  · exact Or.inl ⟨hin, inPages_leads h va hin⟩
  · refine Or.inr ⟨hin, ⟨by omega, by omega⟩, 5, by decide, by decide, ?_⟩
    unfold InPages pages at hin
    rw [show PEACHOS_PROGRAM_VIRTUAL_ADDRESS = 0x400000 from rfl,
      show PEACHOS_PROGRAM_VIRTUAL_STACK_ADDRESS_END = 0x3FB000 from rfl,
      show PEACHOS_PROGRAM_VIRTUAL_STACK_ADDRESS_START = 0x3FF000 from rfl] at hin
    unfold LoadedMap
    rw [if_neg (by omega), if_neg (by omega)]

theorem not_inDir_outside (hk : k.HeapOk) (h : PageDir k chunk dir table 7) (a : Nat) (ha : ¬ k.HeapAddress a) :
    ¬ InDir chunk dir table (a - a % 4096) := by
  intro hin
  obtain ⟨i, hi, hused, -⟩ := inDir_used h _ hin
  have hal := hk.aligned
  unfold HeapAddress at ha
  unfold blockAddr at hi
  omega

theorem taskSpace_of_loaded {process : Nat} (h : Loaded k process dir table) :
    TaskSpace k (k.process process).task dir table := by
  refine ⟨⟨h.heap, h.pageDir⟩, ?_⟩
  intro va x hout hx hin
  have hlt : va % 2 ^ 32 < 2 ^ 32 := Nat.mod_lt _ (by decide)
  unfold userAddress at hx
  rw [h.pageDir.chunk_eq] at hx
  obtain ⟨hleads, hmod⟩ := reaches_of_walk h.heap (holds_loaded h) _ _ hlt hx
  rcases loaded_leads h _ hlt with ⟨-, a, hown, ha⟩ | ⟨-, ha⟩
  · rw [leads_unique _ _ _ hleads ha] at hin
    obtain ⟨-, hc, hd, ht⟩ := h.own a hown
    rcases hin with rfl | rfl | ⟨i, hi, rfl⟩
    · exact hc rfl
    · exact hd rfl
    · exact ht i hi rfl
  · -- A page that is mapped to itself is not in the heap.
    rw [leads_unique _ _ _ hleads ha] at hin
    exact not_inDir_outside h.heap h.pageDir _ hout hin

theorem taskDir_of_holds (h : TaskDir k task dir table) (hk' : k'.HeapOk) (htasks : k'.tasks = k.tasks)
    (hheld : Holds k' (k.tasks.task task).page_directory dir table 7 (entries k dir)) :
    TaskDir k' task dir table ∧ ∀ va, k'.userAddress task va = k.userAddress task va := by
  refine ⟨⟨hk', by rw [htasks]; exact hheld.pageDir⟩, ?_⟩
  intro va
  have hlt : va % 2 ^ 32 < 2 ^ 32 := Nat.mod_lt _ (by decide)
  unfold userAddress
  rw [htasks, h.pageDir.chunk_eq, hheld.pageDir.chunk_eq]
  apply Option.ext
  intro x
  constructor
  · intro hx
    exact page_walk_reaches h.heap (holds_entries h) _ x hlt (reaches_of_walk hk' hheld _ x hlt hx)
  · intro hx
    exact page_walk_reaches hk' hheld _ x hlt (reaches_of_walk h.heap (holds_entries h) _ x hlt hx)

/-- A byte of the memory is set. -/
def withByte (k : Kernel) (a : Nat) (b : UInt8) : Kernel := { k with mem := fun x => if x = a then b else k.mem x }

theorem withByte_mem (k : Kernel) (a : Nat) (b : UInt8) : (withByte k a b).mem a = b := if_pos rfl

theorem taskDir_withByte (h : TaskDir k task dir table) (a : Nat) (b : UInt8)
    (hout : ¬ InDir (k.tasks.task task).page_directory dir table (a - a % 4096)) :
    TaskDir (withByte k a b) task dir table ∧ ∀ va, (withByte k a b).userAddress task va = k.userAddress task va :=
  taskDir_of_holds h (heapOk_write h.heap _) rfl
    (holds_outside h.heap (holds_entries h) _ (by omega) hout _ fun x hx => if_neg (by omega))

/-- A buffer of the caller. Its bytes are in no free block, not in the page tables, and not those of the kernel. -/
structure OwnBuffer (k : Kernel) (task dir : Nat) (table : Nat → Nat) (user n : Nat) (phys : Nat → Nat) : Prop where
  mapped : ∀ i < n, k.userAddress task (user + i) = some (phys i)
  out : ∀ i < n, ¬ InDir (k.tasks.task task).page_directory dir table (phys i - phys i % 4096)
  virt : ∀ i < n, ¬ k.FreeByte ((user + i) % 2 ^ 32)
  owned : ∀ i < n, ¬ k.FreeByte (phys i)
  apart : ∀ i < n, ¬ k.KernelByte (phys i)

theorem ownBuffer_le {user n m : Nat} (h : OwnBuffer k task dir table user n phys) (hm : m ≤ n) :
    OwnBuffer k task dir table user m phys :=
  ⟨fun i hi => h.mapped i (by omega), fun i hi => h.out i (by omega), fun i hi => h.virt i (by omega),
    fun i hi => h.owned i (by omega), fun i hi => h.apart i (by omega)⟩

theorem ownBuffer_table {user n : Nat} (h : OwnBuffer k task dir table user n phys) (i : Nat) (hi : i < n) :
    ¬ k.TableByte (phys i) := fun hin => h.apart i hi (Or.inl hin)

theorem not_kernelByte_of_lt (x : Nat) (hx : x < 0x7E00) : ¬ k.KernelByte x := by
  rintro (⟨hin, -⟩ | ⟨hle, -⟩ | ⟨hle, -⟩)
  · unfold PEACHOS_HEAP_TABLE_ADDRESS at hin
    omega
  · omega
  · unfold tss_esp0 PAGING_PAGE_SIZE at hle
    omega

theorem not_kernelByte_of_le (hsaddr : tss_esp0 ≤ k.heap.saddr) (x : Nat) (hx : k.heap.saddr ≤ x) :
    ¬ k.KernelByte x := by
  unfold tss_esp0 at hsaddr
  rintro (hin | ⟨-, hlt⟩ | ⟨-, hlt⟩)
  · exact not_tableByte_of_le hx hin
  · omega
  · unfold tss_esp0 at hlt
    omega

theorem ownBuffer_staged {user n : Nat} (h : TaskDir k task dir table) (hb : OwnBuffer k task dir table user n phys)
    (hs : Staged k k') : TaskDir k' task dir table ∧ OwnBuffer k' task dir table user n phys := by
  obtain ⟨hdir, haddr⟩ := taskDir_of_holds h (since_heapOk hs.since h.heap) hs.tasks
    (holds_since h.heap (holds_entries h) hs.since)
  refine ⟨hdir, ?_, ?_, ?_, ?_, ?_⟩
  · intro i hi
    rw [haddr]
    exact hb.mapped i hi
  · rw [hs.tasks]
    exact hb.out
  · intro i hi hf
    exact hb.virt i hi (freeByte_earlier hs.since _ hf)
  · intro i hi hf
    exact hb.owned i hi (freeByte_earlier hs.since _ hf)
  · intro i hi hin
    exact hb.apart i hi (hin.imp_left (tableByte_iff hs.since.saddr hs.since.total _).mp)

theorem ownBuffer_of_loaded {process : Nat} (h : Loaded k process dir table) (hsaddr : tss_esp0 ≤ k.heap.saddr)
    (user n : Nat)
    (hin : k.BufferInside process user n) (hvirt : ∀ i < n, ¬ k.FreeByte ((user + i) % 2 ^ 32)) :
    ∃ phys, OwnBuffer k (k.process process).task dir table user n phys := by
  have hwalk : ∀ i < n, ∃ x, k.userAddress (k.process process).task (user + i) = some x ∧
      OwnPage (k.process process) (x - x % 4096) := by
    intro i hi
    have hlt : (user + i) % 2 ^ 32 < 2 ^ 32 := Nat.mod_lt _ (by decide)
    obtain ⟨a, hown, ha⟩ := inPages_leads h _ (hin i hi)
    refine ⟨a + (user + i) % 2 ^ 32 % 4096, ?_, ?_⟩
    · unfold userAddress
      rw [h.pageDir.chunk_eq]
      exact page_walk_leads h.heap (holds_loaded h) _ a hlt ha
    · have hal := ha.1.1
      rwa [show a + (user + i) % 2 ^ 32 % 4096 - (a + (user + i) % 2 ^ 32 % 4096) % 4096 = a by omega]
  choose! phys hphys using hwalk
  refine ⟨phys, fun i hi => (hphys i hi).1, ?_, hvirt, ?_, ?_⟩
  · intro i hi hdir
    obtain ⟨-, hchunk, hd, ht⟩ := h.own _ (hphys i hi).2
    rcases hdir with heq | heq | ⟨j, hj, heq⟩
    · exact hchunk heq
    · exact hd heq
    · exact ht j hj heq
  · rintro i hi ⟨j, hj, hfree, hlo, hhi⟩
    have hal := h.heap.aligned
    refine (h.own _ (hphys i hi).2).1 j hj ?_ hfree
    unfold blockAddr
    omega
  · intro i hi
    apply not_kernelByte_of_le hsaddr
    have hptr := usedAt_le _ h.ptr_used
    have hstack := usedAt_le _ h.stack_used
    rcases (hphys i hi).2 with ⟨j, -, hj⟩ | ⟨j, -, hj⟩
    · omega
    · omega

theorem ownBuffer_program {process : Nat} (h : Loaded k process dir table) (hsize : (k.process process).size = 1)
    (hsaddr : k.heap.saddr = 0x1000000) (n : Nat) (hn : n ≤ 4096) :
    ∃ phys, OwnBuffer k (k.process process).task dir table 0x400000 n phys := by
  apply ownBuffer_of_loaded h (by rw [hsaddr]; decide)
  · intro i hi
    refine Or.inl ⟨?_, ?_⟩
    · unfold PEACHOS_PROGRAM_VIRTUAL_ADDRESS
      omega
    · unfold PEACHOS_PROGRAM_VIRTUAL_ADDRESS pages
      omega
  · rintro i hi ⟨j, -, -, hle, -⟩
    omega

theorem ownBuffer_zero_page {process : Nat} (h : Loaded k process dir table) (user n : Nat) (hn : user + n ≤ 4096) :
    OwnBuffer k (k.process process).task dir table user n fun i => user + i := by
  have hpos := h.heap.pos
  have hal := h.heap.aligned
  have hlow : ∀ x < 4096, ¬ k.HeapAddress x := by
    intro x hx hin
    have hle := hin.1
    omega
  have hfree : ∀ x < 4096, ¬ k.FreeByte x := by
    rintro x hx ⟨i, -, -, hle, -⟩
    omega
  have hmapped : ∀ i < n, k.userAddress (k.process process).task (user + i) = some (user + i) := by
    intro i hi
    unfold userAddress
    rw [h.pageDir.chunk_eq, Nat.mod_eq_of_lt (by omega)]
    apply page_walk_reaches h.heap (holds_loaded h) _ _ (by omega)
    refine ⟨⟨⟨by omega, by omega⟩, 5, by decide, by decide, ?_⟩, rfl⟩
    rw [show user + i - (user + i) % 4096 = 0 by omega]
    rfl
  refine ⟨hmapped, ?_, ?_, ?_, ?_⟩
  · intro i hi
    apply (taskSpace_of_loaded h).apart (user + i) _ _ (hmapped i hi)
    exact hlow _ (by omega)
  · intro i hi
    exact hfree _ (by omega)
  · intro i hi
    exact hfree _ (by omega)
  · intro i hi
    exact not_kernelByte_of_lt _ (by omega)

theorem taskSpace_of_newTask {k1 : Kernel} (hk : k.HeapOk) (h : NewTask k k' task k1 chunk dir table) :
    TaskSpace k' task dir table ∧ ∀ va < 2 ^ 32, k'.userAddress task va = some va := by
  have hk1 := since_heapOk h.since hk
  have hk' := since_heapOk h.newDir.since hk1
  have hheld := holds_new hk1 5 (by decide) h.newDir
  have haddr : ∀ va < 2 ^ 32, k'.userAddress task va = some va := by
    intro va hva
    unfold userAddress
    rw [h.own, h.newDir.pageDir.chunk_eq, Nat.mod_eq_of_lt hva]
    apply page_walk_reaches hk' hheld va va hva
    exact ⟨⟨⟨by omega, by omega⟩, 5, by decide, by decide, rfl⟩, rfl⟩
  refine ⟨⟨⟨hk', by rw [h.own]; exact h.newDir.pageDir⟩, ?_⟩, haddr⟩
  intro va x hout hx
  have hlt : va % 2 ^ 32 < 2 ^ 32 := Nat.mod_lt _ (by decide)
  have hsame := haddr _ hlt
  unfold userAddress at hx hsame
  rw [Nat.mod_eq_of_lt hlt, hx, Option.some.injEq] at hsame
  subst hsame
  rw [h.own]
  exact not_inDir_outside hk' h.newDir.pageDir _ hout

theorem bootTask_spec : ∃ task k, bootKernel.task_new 0 = (task, k) ∧ Room k 2 ∧ k.heap.saddr = 0x1000000 ∧
    ∃ dir table, TaskSpace k task dir table ∧ ∀ va < 2 ^ 32, k.userAddress task va = some va := by
  have hroom := (room_task_new 0 2 (room_le _ _ bootKernel_room (by decide))).2
  obtain ⟨-, -, k1, chunk, dir, table, hnew⟩ := task_new_spec bootKernel_room.heap 0 hroom.oom
  -- Nothing from here on runs `task_new`.
  generalize bootKernel.task_new 0 = res at *
  obtain ⟨task, k⟩ := res
  exact ⟨task, k, rfl, hroom, hnew.newDir.since.saddr.trans hnew.since.saddr, dir, table,
    taskSpace_of_newTask bootKernel_room.heap hnew⟩

theorem bootTask_copies : ∃ task k r k', bootKernel.task_new 0 = (task, k) ∧
    k.copy_to_task task 0x1FFF 0x500 2 = some (r, k') ∧
    if (k.kzalloc 2).1 = 0 then r = -ENOMEM ∧ k'.memory = k.memory
    else r = 0 ∧ CopiedTo k.memory k'.memory (k.Spare (k.kzalloc 2).1) 0x500 2 fun i => 0x1FFF + i := by
  obtain ⟨task, k, hnew, hroom, hsaddr, dir, table, hspace, haddr⟩ := bootTask_spec
  have hfresh := freshPage_kzalloc hspace.heap 2 (by decide) (by decide)
    (room_kzalloc 2 1 (room_le _ _ hroom (by decide)) (by decide)).1
  have hlow := hfresh.heap.1
  rw [hsaddr] at hlow
  have hhigh : ∀ a, a < 0x3000 → ¬ InPage (k.kzalloc 2).1 a := by
    intro a ha hin
    unfold InPage at hin
    omega
  have hrange : k.UserRange task 0x1FFF 2 fun i => 0x1FFF + i := by
    constructor
    · intro i hi
      exact haddr (0x1FFF + i) (by omega)
    · intro i hi hin
      have hle := hin.1
      rw [hsaddr] at hle
      omega
    · intro i hi
      exact not_kernelByte_of_lt _ (by omega)
  obtain ⟨r, k', heq, -, hres⟩ := (task_copies hspace 0x1FFF 2 (by decide) (by decide) hrange
    (fun i hi => hhigh _ (by omega))).1 0x500 (fun i hi => hhigh _ (by omega))
    fun i hi hin => not_kernelByte_of_lt (0x500 + i) (by omega) (Or.inl hin)
  exact ⟨task, k, r, k', hnew, heq, hres⟩

theorem copy_to_task_entry {buf r : Nat} (h : TaskDir k task dir table) (hall : Allocated k 1 (k.kzalloc 1).2 r)
    (hin : k.TableByte (PEACHOS_HEAP_TABLE_ADDRESS + r))
    (hmapped : k.userAddress task (PEACHOS_HEAP_TABLE_ADDRESS + r) = some (PEACHOS_HEAP_TABLE_ADDRESS + r))
    (hbuf : ¬ InPage (k.kzalloc 1).1 buf) :
    ∃ k', k.copy_to_task task (PEACHOS_HEAP_TABLE_ADDRESS + r) buf 1 = some (0, k') ∧
      k'.memory (PEACHOS_HEAP_TABLE_ADDRESS + r) = HEAP_BLOCK_TABLE_ENTRY_FREE := by
  have hpos := h.heap.pos
  have hne : (k.kzalloc 1).1 ≠ 0 := by
    rw [hall.addr]
    unfold blockAddr
    omega
  have hf := freshPage_kzalloc h.heap 1 (by decide) (by decide) hne
  have hclear := freshPage_tableByte hf _ hin
  have hlow : ¬ k.HeapAddress (PEACHOS_HEAP_TABLE_ADDRESS + r) := by
    rintro ⟨hle, -⟩
    have hlt := hin.2.2
    omega
  have hlt : PEACHOS_HEAP_TABLE_ADDRESS + r < 2 ^ 32 := by
    have h1 := hin.2.2
    have h2 := h.heap.fits
    omega
  have hplaced : Placed k task dir table (PEACHOS_HEAP_TABLE_ADDRESS + r) 1 (fun _ => PEACHOS_HEAP_TABLE_ADDRESS + r)
      (k.kzalloc 1).1 := by
    refine ⟨?_, fun _ _ => not_inDir_outside h.heap h.pageDir _ hlow, ?_⟩
    · intro i hi
      obtain rfl : i = 0 := by omega
      exact hmapped
    · intro i hi
      obtain rfl : i = 0 := by omega
      rwa [Nat.add_zero, Nat.mod_eq_of_lt hlt]
  obtain ⟨mem', heq, -⟩ := copy_to_task_stores h hplaced (by decide) (by decide) (fun _ _ => hclear) hne hlt buf
    fun i hi => by rwa [show buf + i = buf by omega]
  refine ⟨_, heq, ?_⟩
  unfold memory
  rw [if_pos ((done_tableByte hf _).mpr hin), Nat.add_sub_cancel_left, hall.addr, ← since_addr hall.since]
  have hk1 := since_heapOk hall.since h.heap
  have hk2 : ((k.kzalloc 1).2.setMemory mem').HeapOk := ⟨hk1.aligned, hk1.pos, hk1.fits, hk1.small⟩
  have hfree := kfree_block hk2 r (show r < (k.kzalloc 1).2.heap.table.total from hall.since.total ▸ hall.lt)
  show (((k.kzalloc 1).2.setMemory mem').kfree (((k.kzalloc 1).2.setMemory mem').blockAddr r)).heap.table.entries r = _
  rw [hfree]
  exact heap_mark_blocks_free_loop_first _ _

/-- A letter for the block table. -/
theorem tableByte_lost : ∃ task k x k', bootKernel.task_new 0 = (task, k) ∧
    (withByte k 0x500 65).userAddress task x = some x ∧ ¬ (withByte k 0x500 65).HeapAddress x ∧
    ¬ InPage ((withByte k 0x500 65).kzalloc 1).1 x ∧
    (withByte k 0x500 65).copy_to_task task x 0x500 1 = some (0, k') ∧
    k'.memory x ≠ (withByte k 0x500 65).memory 0x500 := by
  obtain ⟨task, k, hnew, hroom, hsaddr, dir, table, hspace, haddr⟩ := bootTask_spec
  have hlow : ¬ k.HeapAddress 0x500 := by
    rintro ⟨hle, -⟩
    omega
  obtain ⟨hdir, hsame⟩ := taskDir_withByte hspace.toTaskDir 0x500 65
    (not_inDir_outside hspace.heap hspace.pageDir _ hlow)
  have hroom' : Room (withByte k 0x500 65) 2 := room_same 2 hroom rfl rfl
  have hbyte := withByte_mem k 0x500 65
  have hsaddr' : (withByte k 0x500 65).heap.saddr = 0x1000000 := hsaddr
  refine ⟨task, k, ?_⟩
  rw [hnew]
  generalize withByte k 0x500 65 = kb at *
  have hne := (room_kzalloc 1 1 (room_le _ _ hroom' (by decide)) (by decide)).1
  obtain ⟨r, hall⟩ := kzalloc_spec hdir.heap 1 (by decide) (by decide) hne
  have hf := freshPage_kzalloc hdir.heap 1 (by decide) (by decide) hne
  have hsmall := hdir.heap.small
  have hr := hall.lt
  have hin : kb.TableByte (PEACHOS_HEAP_TABLE_ADDRESS + r) := by
    refine ⟨Nat.le_add_right _ _, Nat.add_lt_add_left hr _, ?_⟩
    rw [hsaddr']
    unfold PEACHOS_HEAP_TABLE_ADDRESS
    omega
  have hbuf : ¬ InPage (kb.kzalloc 1).1 0x500 := by
    have hle := hf.heap.1
    rintro ⟨hin, -⟩
    omega
  have hmapped : kb.userAddress task (PEACHOS_HEAP_TABLE_ADDRESS + r) = some (PEACHOS_HEAP_TABLE_ADDRESS + r) := by
    rw [hsame]
    exact haddr _ (by unfold PEACHOS_HEAP_TABLE_ADDRESS; omega)
  obtain ⟨k', heq, hzero⟩ := copy_to_task_entry hdir hall hin hmapped hbuf
  refine ⟨_, k', rfl, hmapped, ?_, freshPage_tableByte hf _ hin, heq, ?_⟩
  · rintro ⟨hle, -⟩
    have hlt := hin.2.2
    omega
  · rw [hzero, memory_of_not fun hin => not_kernelByte_of_lt 0x500 (by decide) (Or.inl hin), hbyte]
    decide

end PeachOS.Memory
