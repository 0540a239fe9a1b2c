import PeachOS.Process.TaskCopies
import PeachOS.Fat.FileReads
import PeachOS.Fat.Names

/-!
# System calls that fill a buffer of the caller

`sys_read`, `sys_readdir` and `sys_readline` get their bytes into a buffer of the kernel and copy it to the task. None
of them looks at the address that the caller gave.
-/

open PeachOS.Lib PeachOS.Blocks PeachOS.Kernel

namespace PeachOS.Memory

variable {k k' : Kernel} {process dir : Nat} {table : Nat → Nat}

/-! ## The calls -/

theorem bufferInside_staged (hs : Staged k k') (user n : Nat) :
    k'.BufferInside process user n ↔ k.BufferInside process user n := by
  unfold BufferInside InPages
  rw [hs.process]

theorem own_staged (hs : Staged k k') (x : Nat) : k'.Own process x ↔ k.Own process x := by
  unfold Own
  rw [hs.process]

theorem writesOwn_nothing (hs : Staged k k') (user n buf : Nat) (r : Int) (hr : r ≤ 0) :
    k.WritesOwn process user n (some (r, k'.kfree buf)) :=
  ⟨r, k'.kfree buf, rfl, fun x hx _ => hs.mem x hx, fun _ => ⟨hr, hs.mem⟩⟩

theorem writesOwn_null (user n size : Nat) (r : Int) (hr : r ≤ 0) (hnull : (k.kzalloc size).1 = 0) :
    k.WritesOwn process user n (some (r, (k.kzalloc size).2)) := by
  have hmem := kzalloc_null_mem size hnull
  exact ⟨r, _, rfl, fun x _ _ => by rw [hmem], fun _ => ⟨hr, fun x _ => by rw [hmem]⟩⟩

theorem writesOwn_copy (h : Loaded k process dir table) (hs : Staged k k') (user kbuf n : Nat) (h1 : 1 ≤ n)
    (hlt : n < 4096) (huser : user < 2 ^ 32) (g : Int → Int) (hg : 0 < g 0) :
    k.WritesOwn process user n ((k'.copy_to_task (k.process process).task user kbuf n).map fun res =>
      (g res.1, res.2.kfree kbuf)) ↔
      k.BufferInside process user n ∨ ((k'.kzalloc n).1 = 0 ∧ g (-ENOMEM) ≤ 0) := by
  have h' := loaded_staged h hs
  have hin : k'.BufferInside process user n ↔ k.BufferInside process user n := bufferInside_staged hs user n
  by_cases hnull : (k'.kzalloc n).1 = 0
  · rw [copy_to_task_null _ user kbuf n hlt hnull, Option.map_some]
    have hmem : ∀ x, ¬ k.FreeByte x → (k'.kzalloc n).2.mem x = k.mem x := by
      intro x hx
      rw [kzalloc_null_mem n hnull]
      exact hs.mem x hx
    constructor
    · rintro ⟨r, k'', heq, -, href⟩
      by_cases hbuf : k.BufferInside process user n
      · exact Or.inl hbuf
      · obtain ⟨rfl, -⟩ := Prod.mk.inj (Option.some.inj heq)
        exact Or.inr ⟨hnull, (href hbuf).1⟩
    · intro hor
      refine ⟨_, _, rfl, fun x hx _ => hmem x hx, fun hbuf => ⟨?_, hmem⟩⟩
      exact (hor.resolve_left hbuf).2
  · constructor
    · rintro ⟨r, k'', heq, -, href⟩
      by_contra hno
      obtain ⟨⟨rc, kc⟩, hcopy, hres⟩ := Option.map_eq_some_iff.mp heq
      have hrc := copy_to_task_result _ user kbuf n h'.heap h1 hlt hnull rc hcopy
      obtain ⟨rfl, -⟩ := Prod.mk.inj hres
      have hle := (href fun hbuf => hno (Or.inl hbuf)).1
      rw [hrc] at hle
      exact absurd hg (Int.not_lt.mpr hle)
    · rintro (hbuf | ⟨h0, -⟩)
      · obtain ⟨kc, hcopy, hframe⟩ := copy_to_task_inside h' user kbuf n h1 hlt huser (hin.mpr hbuf) hnull
        rw [hs.process] at hcopy
        rw [hcopy, Option.map_some]
        refine ⟨_, _, rfl, fun x hx hown => ?_, fun hbuf' => absurd hbuf hbuf'⟩
        have hx' : ¬ k'.FreeByte x := fun hf => hx (freeByte_earlier hs.since x hf)
        exact (hframe x hx' (fun ho => hown ((own_staged hs x).mp ho))).trans (hs.mem x hx)
      · exact absurd h0 hnull

/-- A call that fills a buffer of `n` bytes by `fill` and copies all of it. `fill` gets the address and the memory, and
returns the result and the memory. -/
def filledCall (k : Kernel) (task user n : Nat) (fill : Nat → (Nat → UInt8) → Int × (Nat → UInt8)) :
    Option (Int × Kernel) :=
  let res := k.kzalloc n
  if res.1 = 0 then some (-ENOMEM, res.2) else
  let out := fill res.1 res.2.mem
  let k := { res.2 with mem := out.2 }
  if out.1 > 0 then (k.copy_to_task task user res.1 n).map fun rc =>
    (if rc.1 < 0 then rc.1 else out.1, rc.2.kfree res.1)
  else some (out.1, k.kfree res.1)

theorem filledCall_writesOwn_iff (h : Loaded k process dir table) (user n : Nat) (h1 : 1 ≤ n) (hlt : n < 4096)
    (huser : user < 2 ^ 32) (fill : Nat → (Nat → UInt8) → Int × (Nat → UInt8)) (gives : Prop)
    (hframe : ∀ buf mem x, ¬ (buf ≤ x ∧ x < buf + 4096) → (fill buf mem).2 x = mem x)
    (hgives : ∀ buf mem, 0 < (fill buf mem).1 ↔ gives) :
    k.WritesOwn process user n (filledCall k (k.process process).task user n fill) ↔
      k.BufferInside process user n ∨ ¬ gives ∨ ¬ ∃ i < k.heap.table.total, ∃ j < k.heap.table.total, i ≠ j ∧
        k.heap.table.Free i ∧ k.heap.table.Free j := by
  unfold filledCall
  dsimp only
  by_cases hnull : (k.kzalloc n).1 = 0
  · rw [if_pos hnull]
    refine ⟨fun _ => Or.inr (Or.inr ?_), fun _ => writesOwn_null user n n _ (by decide) hnull⟩
    rintro ⟨i, hi, -, -, -, hfree, -⟩
    exact (kzalloc_null_iff h.heap n h1 (by omega)).mp hnull i hi hfree
  · rw [if_neg hnull]
    obtain ⟨r, hall⟩ := kzalloc_spec h.heap n h1 (by omega) hnull
    have hs := staged_fill h.heap n r h1 (by omega) hall _ (hframe (k.kzalloc n).1 (k.kzalloc n).2.mem)
    have hg := hgives (k.kzalloc n).1 (k.kzalloc n).2.mem
    have hnext :=
      kzalloc_null_next h.heap n n r h1 (by omega) h1 (by omega) hall (fill (k.kzalloc n).1 (k.kzalloc n).2.mem).2
    generalize fill (k.kzalloc n).1 (k.kzalloc n).2.mem = out at *
    by_cases hpos : 0 < out.1
    · rw [if_pos hpos, writesOwn_copy h hs user _ n h1 hlt huser (fun rc => if rc < 0 then rc else out.1) hpos, hnext]
      have hneg : (if -ENOMEM < 0 then -ENOMEM else out.1) ≤ 0 := by
        rw [if_pos (by decide)]
        decide
      simp only [hneg, and_true, not_not_intro (hg.mp hpos), false_or]
    · rw [if_neg hpos]
      exact ⟨fun _ => Or.inr (Or.inl fun hgv => hpos (hg.mpr hgv)),
        fun _ => writesOwn_nothing hs user n _ _ (by omega)⟩

/-! ### Reading a file -/

theorem fread_frame (s : Vfs) (hsize : 0 < fat16_cluster_size s.vol.priv) (ptr : Nat → UInt8) (n : Nat) (fd : Int)
    (i : Nat) (hi : n ≤ i) : (s.fread ptr 1 n fd).2 i = ptr i := by
  by_cases hopen : s.file_get_descriptor fd ≠ 0 ∧ n ≠ 0
  · rw [Fat.fread_bytes s ptr n fd hsize hopen.1 hopen.2, if_neg (by omega)]
  · unfold Vfs.fread
    split
    · rfl
    · rename_i hargs
      rw [not_or, not_or] at hargs
      have hnone : s.file_get_descriptor fd = 0 := by
        by_contra hne
        exact hopen ⟨hne, hargs.2.1⟩
      simp only [hnone, if_true]

theorem fread_gives (s : Vfs) (hsize : 0 < fat16_cluster_size s.vol.priv) (ptr : Nat → UInt8) (n : Nat) (h1 : 1 ≤ n)
    (hlt : n < 4096) (fd : Int) :
    (0 < (s.fread ptr 1 n fd).1 ↔ 0 < (s.fread (fun _ => 0) 1 n fd).1) ∧
      (0 < (s.fread ptr 1 n fd).1 → (s.fread ptr 1 n fd).1 = n) := by
  by_cases hopen : s.file_get_descriptor fd = 0
  · have hrefused : ∀ out, (s.fread out 1 n fd).1 = -EINVARG := by
      intro out
      unfold Vfs.fread
      split
      · rfl
      · simp only [hopen, if_true]
    rw [hrefused, hrefused]
    exact ⟨Iff.rfl, fun h => absurd h (by decide)⟩
  · have hn : i32 n = n := i32_of_lt _ (by omega) (by omega)
    have hres : ∀ out, ((∃ i < n, seen (shown s.vol (s.priv fd).item.item) (s.priv fd).pos i = none) →
        (s.fread out 1 n fd).1 < 0) ∧
        ((∀ i < n, seen (shown s.vol (s.priv fd).item.item) (s.priv fd).pos i ≠ none) →
          (s.fread out 1 n fd).1 = n) := by
      intro out
      obtain ⟨-, hnone, hall⟩ := Fat.read_bytes s.vol (s.priv fd) hsize n out
      rw [Fat.fread_open s out n fd hopen (by omega)]
      rw [hn] at hall
      exact ⟨hnone, hall⟩
    by_cases hex : ∃ i < n, seen (shown s.vol (s.priv fd).item.item) (s.priv fd).pos i = none
    · have ha := (hres ptr).1 hex
      have hb := (hres fun _ => 0).1 hex
      exact ⟨⟨fun h => by omega, fun h => by omega⟩, fun h => by omega⟩
    · have hall : ∀ i < n, seen (shown s.vol (s.priv fd).item.item) (s.priv fd).pos i ≠ none :=
        fun i hi hnone => hex ⟨i, hi, hnone⟩
      rw [(hres ptr).2 hall, (hres fun _ => 0).2 hall]
      exact ⟨Iff.rfl, fun _ => rfl⟩

theorem written_frame (mem : Nat → UInt8) (buf n : Nat) (hn : n ≤ 4096) (data : Nat → UInt8)
    (hdata : ∀ i, n ≤ i → data i = mem (buf + i)) (x : Nat) (hx : ¬ (buf ≤ x ∧ x < buf + 4096)) :
    written mem buf data x = mem x := by
  unfold written
  split
  · rename_i hle
    rw [hdata _ (by omega), Nat.add_sub_cancel' hle]
  · rfl

section Calls

variable (s : Vfs) (user : Nat)

theorem read_eq (hsize : 0 < fat16_cluster_size s.vol.priv) (task : Nat) (fd count : Int) (h1 : 0 < count)
    (hlt : count < 4096) : k.isr80h_command3_read s task fd user count =
      filledCall k task user count.toNat fun buf mem =>
        ((s.fread (fun i => mem (buf + i)) 1 count.toNat fd).1,
          written mem buf (s.fread (fun i => mem (buf + i)) 1 count.toNat fd).2) := by
  unfold isr80h_command3_read filledCall
  rw [if_neg (by unfold PAGING_PAGE_SIZE; omega)]
  dsimp only
  split
  · rfl
  · split
    · rename_i hpos
      have hn := (fread_gives s hsize _ count.toNat (by omega) (by omega) fd).2 hpos
      rw [hn, Int.toNat_natCast]
    · rfl

theorem read_writesOwn_iff (h : Loaded k process dir table) (hsize : 0 < fat16_cluster_size s.vol.priv)
    (huser : user < 2 ^ 32) (fd count : Int) (h1 : 0 < count) (hlt : count < 4096) :
    k.WritesOwn process user count.toNat (k.isr80h_command3_read s (k.process process).task fd user count) ↔
      k.BufferInside process user count.toNat ∨ ¬ (BufferCall.read fd count).Gives s ∨
        ¬ k.HasMemory (.read fd count) := by
  rw [read_eq s user hsize _ fd count h1 hlt]
  refine filledCall_writesOwn_iff h user count.toNat (by omega) (by omega) huser _ _ ?_ ?_
  · intro buf mem x hx
    exact written_frame mem buf count.toNat (by omega) _ (fun i hi => fread_frame s hsize _ _ fd i hi) x hx
  · intro buf mem
    exact (fread_gives s hsize _ count.toNat (by omega) (by omega) fd).1

/-! ### Listing the directory -/

theorem freaddir_frame (index : Int) (buf : Nat → UInt8) (n i : Nat) (hn : n ≤ 256) (hi : 256 ≤ i) :
    (s.freaddir index buf n).2 i = buf i := by
  unfold Vfs.freaddir fat16_readdir
  split
  · rfl
  · split
    · refine Fat.filename_frame _ buf n i ?_ (by omega)
      exact Nat.lt_of_le_of_lt (Fat.entryName_length _) (by omega)
    · rfl

theorem freaddir_gives (index : Int) (buf buf' : Nat → UInt8) (n : Nat) :
    (s.freaddir index buf n).1 = (s.freaddir index buf' n).1 := by
  unfold Vfs.freaddir fat16_readdir
  split
  · rfl
  · split <;> rfl

theorem readdir_writesOwn_iff (h : Loaded k process dir table) (huser : user < 2 ^ 32) (index buf_size : Int)
    (h0 : 0 ≤ index) (h1 : 0 < buf_size) (hle : buf_size ≤ 256) :
    k.WritesOwn process user buf_size.toNat
        (k.isr80h_command10_readdir s (k.process process).task index user buf_size) ↔
      k.BufferInside process user buf_size.toNat ∨ ¬ (BufferCall.readdir index buf_size).Gives s ∨
        ¬ k.HasMemory (.readdir index buf_size) := by
  have heq : k.isr80h_command10_readdir s (k.process process).task index user buf_size =
      filledCall k (k.process process).task user buf_size.toNat fun buf mem =>
        ((s.freaddir index (fun i => mem (buf + i)) buf_size.toNat).1,
          written mem buf (s.freaddir index (fun i => mem (buf + i)) buf_size.toNat).2) := by
    unfold isr80h_command10_readdir filledCall
    rw [if_neg (by omega)]
  rw [heq]
  refine filledCall_writesOwn_iff h user buf_size.toNat (by omega) (by omega) huser _ _ ?_ ?_
  · intro buf mem x hx
    exact written_frame mem buf 256 (by omega) _ (fun i hi => freaddir_frame s index _ _ i (by omega) hi) x hx
  · intro buf mem
    unfold BufferCall.Gives
    rw [freaddir_gives s index _ fun _ => 0]

/-! ### Reading a line -/

/-- The buffer at `kbuf` starts with the line. -/
def HoldsLine (mem : Nat → UInt8) (kbuf : Nat) (text : List UInt8) : Prop :=
  ∀ j c, text[j]? = some c → mem (kbuf + j) = c

theorem holdsLine_push (mem : Nat → UInt8) (kbuf : Nat) (line : List UInt8) (c : UInt8) (h : HoldsLine mem kbuf line) :
    HoldsLine (fun x => if x = kbuf + line.length then c else mem x) kbuf (line ++ [c]) := by
  intro j d hj
  rcases Nat.lt_trichotomy j line.length with hlt | rfl | hgt
  · rw [List.getElem?_append_left hlt] at hj
    exact (if_neg (by omega)).trans (h j d hj)
  · rw [List.getElem?_concat_length] at hj
    exact (if_pos rfl).trans (Option.some.inj hj)
  · rw [List.getElem?_eq_none (by rw [List.length_append, List.length_singleton]; omega)] at hj
    cases hj

theorem holdsLine_dropLast (mem : Nat → UInt8) (kbuf : Nat) (line : List UInt8) (h : HoldsLine mem kbuf line) :
    HoldsLine mem kbuf line.dropLast := by
  intro j c hj
  rw [List.getElem?_dropLast] at hj
  split at hj
  · exact h j c hj
  · cases hj

/-- What the loop leaves: the line that is typed, in the buffer. -/
structure LineRead (mem : Nat → UInt8) (kbuf : Nat) (line : List UInt8) (res : Option (Nat × (Nat → UInt8))) :
    Prop where
  length : line.length ≤ 511
  result : ∃ mem', res = some (line.length, mem') ∧ HoldsLine mem' kbuf line ∧
    ∀ x, ¬ (kbuf ≤ x ∧ x < kbuf + 512) → mem' x = mem x

theorem readline_loop_spec (keys : Nat → UInt8) (max : Int) (hmax : 0 < max ∧ max ≤ 512) (kbuf fuel n : Nat)
    (line line' : List UInt8) (mem : Nat → UInt8) (hlen : line.length ≤ 511) (hline : HoldsLine mem kbuf line)
    (h : typedFrom keys max.toNat fuel n line = some line') :
    LineRead mem kbuf line' (readline_loop keys max kbuf fuel n line.length mem) := by
  induction fuel generalizing n line mem with
  | zero => cases h
  | succ fuel ih =>
    rw [typedFrom] at h
    rw [readline_loop]
    by_cases hfull : max.toNat ≤ line.length + 1
    · rw [if_pos hfull] at h
      cases h
      rw [if_pos (by omega)]
      exact ⟨hlen, mem, rfl, hline, fun _ _ => rfl⟩
    rw [if_neg hfull] at h
    rw [if_neg (by omega)]
    dsimp only
    by_cases h0 : keys n = 0
    · rw [if_pos h0] at h ⊢
      exact ih (n + 1) line mem hlen hline h
    rw [if_neg h0] at h ⊢
    by_cases h8 : keys n = 8
    · rw [if_pos h8] at h ⊢
      have hlast : (if line.length > 0 then line.length - 1 else line.length) = line.dropLast.length := by
        rw [List.length_dropLast]
        split <;> omega
      rw [hlast]
      exact ih (n + 1) line.dropLast mem (by rw [List.length_dropLast]; omega)
        (holdsLine_dropLast mem kbuf line hline) h
    rw [if_neg h8] at h ⊢
    have hpush := holdsLine_push mem kbuf line (keys n) hline
    have hlen' : (line ++ [keys n]).length = line.length + 1 := by simp
    have hkeep : ∀ x, ¬ (kbuf ≤ x ∧ x < kbuf + 512) →
        (if x = kbuf + line.length then keys n else mem x) = mem x := fun x hx => if_neg (by omega)
    by_cases hend : keys n = 10 ∨ keys n = 13
    · rw [if_pos hend] at h ⊢
      cases h
      exact ⟨by omega, _, by rw [hlen'], hpush, hkeep⟩
    · rw [if_neg hend] at h ⊢
      rw [← hlen']
      obtain ⟨hl, mem', heq, hm, hframe⟩ := ih (n + 1) (line ++ [keys n]) _ (by omega) hpush h
      exact ⟨hl, mem', heq, hm, fun x hx => (hframe x hx).trans (hkeep x hx)⟩

theorem readline_keys_spec (keys : Nat → UInt8) (max : Int) (hmax : 0 < max ∧ max ≤ 512) (kbuf fuel : Nat)
    (line : List UInt8) (mem : Nat → UInt8) (h : typed keys max.toNat fuel = some line) :
    LineRead mem kbuf line (readline_keys keys max kbuf fuel mem) := by
  unfold typed at h
  unfold readline_keys
  obtain ⟨⟨c, n⟩, hdrain, h⟩ := Option.bind_eq_some_iff.mp h
  rw [hdrain]
  dsimp only [Option.bind_eq_bind, Option.bind_some] at h ⊢
  by_cases hc : c ≠ 0
  · rw [if_pos hc] at h ⊢
    have hfirst := holdsLine_push mem kbuf [] c (fun j d hj => by cases hj)
    obtain ⟨hl, mem', heq, hm, hframe⟩ := readline_loop_spec keys max hmax kbuf fuel n [c] line _ (by simp) hfirst h
    exact ⟨hl, mem', heq, hm, fun x hx => (hframe x hx).trans (if_neg (by simp; omega))⟩
  · rw [if_neg hc] at h ⊢
    exact readline_loop_spec keys max hmax kbuf fuel n [] line mem (by simp) (fun j d hj => by cases hj) h

theorem readline_writesOwn_iff (h : Loaded k process dir table) (huser : user < 2 ^ 32) (max : Int) (keys : Nat → UInt8)
    (fuel : Nat) (hmax : 0 < max ∧ max ≤ 512) (line : List UInt8) (hline : typed keys max.toNat fuel = some line) :
    k.WritesOwn process user (line.length + 1)
        (k.isr80h_command6_readline keys fuel (k.process process).task user max) ↔
      k.BufferInside process user (line.length + 1) ∨ ¬ line ≠ [] ∨ ¬ ∃ i < k.heap.table.total,
      k.heap.table.Free i := by
  unfold isr80h_command6_readline
  rw [if_neg (by omega)]
  dsimp only
  by_cases hnull : (k.kzalloc max.toNat).1 = 0
  · rw [if_pos hnull]
    refine ⟨fun _ => Or.inr (Or.inr ?_), fun _ => writesOwn_null user _ _ _ (by decide) hnull⟩
    rintro ⟨i, hi, hfree⟩
    exact (kzalloc_null_iff h.heap _ (by omega) (by omega)).mp hnull i hi hfree
  · rw [if_neg hnull]
    obtain ⟨r, hall⟩ := kzalloc_spec h.heap max.toNat (by omega) (by omega) hnull
    have hfree := hall.free r (Nat.le_refl r) (by rw [one_block _ (by omega) (by omega)]; omega) hall.lt
    obtain ⟨hl, mem', hkeys, -, hframe⟩ := readline_keys_spec keys max hmax (k.kzalloc max.toNat).1 fuel line
      (k.kzalloc max.toNat).2.mem hline
    have hs := staged_fill h.heap max.toNat r (by omega) (by omega) hall
      (fun x => if x = (k.kzalloc max.toNat).1 + line.length then 0 else mem' x)
      fun x hx => (if_neg (by omega)).trans (hframe x (by omega))
    rw [hkeys]
    simp only [Option.bind_eq_bind, Option.bind_some]
    rcases line with _ | ⟨c, rest⟩
    · rw [if_neg (by simp)]
      exact ⟨fun _ => Or.inr (Or.inl (by simp)), fun _ => writesOwn_nothing hs user _ _ _ (by simp)⟩
    · rw [if_pos (by simp), writesOwn_copy h hs user _ _ (by omega) (by omega) huser
        (fun _ => (((c :: rest).length : Nat) : Int)) (by simp)]
      have hpos : ¬ ((((c :: rest).length : Nat) : Int) ≤ 0) := by simp
      have hsome : ∃ i < k.heap.table.total, k.heap.table.Free i := ⟨r, hall.lt, hfree⟩
      simp only [hpos, and_false, or_false, ne_eq, reduceCtorEq, not_false_eq_true, not_true,
        not_not_intro hsome]

end Calls

/-- The calls that fill a buffer write to the memory of the caller only, and refuse other buffers, exactly if the buffer
is in the pages of the process, or nothing is copied anyway. -/
theorem calls_write_own_iff (h : Loaded k process dir table) (s : Vfs) (hsize : 0 < fat16_cluster_size s.vol.priv)
    (user : UInt32) (call : BufferCall) (hcall : call.Accepted) :
    k.WritesOwn process user.toNat call.bytes (call.run k s (k.process process).task user.toNat) ↔
      k.BufferInside process user.toNat call.bytes ∨ ¬ call.Gives s ∨ ¬ k.HasMemory call := by
  have huser : user.toNat < 2 ^ 32 := user.toNat_lt
  cases call with
  | read fd count => exact read_writesOwn_iff s user.toNat h hsize huser fd count hcall.1 hcall.2
  | readdir index buf_size =>
    obtain ⟨h0, h1, hle⟩ := hcall
    exact readdir_writesOwn_iff s user.toNat h huser index buf_size h0 h1 hle
  | readline max keys fuel =>
    obtain ⟨hmax, hline⟩ := hcall
    obtain ⟨line, hline⟩ := Option.ne_none_iff_exists'.mp hline
    have hline' : (typed keys max.toNat fuel).getD [] = line := by rw [hline, Option.getD_some]
    have heq := readline_writesOwn_iff user.toNat h huser max keys fuel hmax line hline
    rw [← hline'] at heq
    exact heq

/-! ## The line that arrives -/

theorem readline_copies {task user : Nat} {phys : Nat → Nat} (h : TaskDir k task dir table) (huser : user < 2 ^ 32)
    (keys : Nat → UInt8) (max : Int) (fuel : Nat) (hmax : 0 < max ∧ max ≤ 512) (line : List UInt8)
    (hline : typed keys max.toNat fuel = some line) (hne : line ≠ [])
    (hb : OwnBuffer k task dir table user (line.length + 1) phys) (hnull : (k.kzalloc max.toNat).1 ≠ 0)
    (hnext : ∀ mem, (kzalloc { (k.kzalloc max.toNat).2 with mem := mem } (line.length + 1)).1 ≠ 0) :
    ∃ k', k.isr80h_command6_readline keys fuel task user max = some ((line.length : Int), k') ∧
      (∀ j c, (line ++ [0])[j]? = some c → k'.mem (phys j) = c) ∧
      ∀ x, ¬ k.FreeByte x → (∀ i < line.length + 1, x ≠ phys i) → k'.mem x = k.mem x := by
  have hlen : 0 < line.length := List.length_pos_iff.mpr hne
  obtain ⟨r, hall⟩ := kzalloc_spec h.heap max.toNat (by omega) (by omega) hnull
  obtain ⟨hl, mem', hkeys, hmem, hframe⟩ := readline_keys_spec keys max hmax (k.kzalloc max.toNat).1 fuel line
    (k.kzalloc max.toNat).2.mem hline
  have hs := staged_fill h.heap max.toNat r (by omega) (by omega) hall
    (fun x => if x = (k.kzalloc max.toNat).1 + line.length then 0 else mem' x)
    fun x hx => (if_neg (by omega)).trans (hframe x (by omega))
  obtain ⟨h', hb'⟩ := ownBuffer_staged h hb hs
  have hused := usedAt_allocated _ r hall
  have hnext' := hnext fun x => if x = (k.kzalloc max.toNat).1 + line.length then 0 else mem' x
  have hfresh := freshPage_kzalloc h'.heap (line.length + 1) (by omega) (by omega) hnext'
  obtain ⟨r', hall'⟩ := kzalloc_spec h'.heap (line.length + 1) (by omega) (by omega) hnext'
  have hnew := fun x hx => allocated_freeByte (line.length + 1) r' (by omega) (by omega) hall' x (And.left hx)
    (And.right hx)
  have hkernel : ∀ i < line.length + 1, ¬ k.TableByte ((k.kzalloc max.toNat).1 + i) := by
    intro i hi
    have hle := usedAt_le _ hused
    rw [hall.since.saddr] at hle
    exact not_tableByte_of_le (by omega)
  obtain ⟨k', hcopy, hc, -⟩ := copy_to_task_copies h'
    ⟨hb'.mapped, hb'.out, fun i hi hin => hb'.virt i hi (hnew _ hin)⟩ (by omega) (by omega)
    (fun i hi hin => hb'.owned i hi (hnew _ hin)) hnext' huser (k.kzalloc max.toNat).1
    (fun i hi hin => by
      have hal := (usedAt_aligned (since_heapOk hall.since h.heap) _ hused).1
      have hsame := page_of_inPage _ _ hfresh.aligned hin
      exact hfresh.taken _ (taken_of_usedAt hused) (by omega))
    (fun i hi hin => hkernel i hi ((tableByte_iff hs.since.saddr hs.since.total _).mp hin)) (ownBuffer_table hb')
  refine ⟨k'.kfree (k.kzalloc max.toNat).1, ?_, ?_, ?_⟩
  · unfold isr80h_command6_readline
    rw [if_neg (by omega)]
    dsimp only
    rw [if_neg hnull, hkeys]
    simp only [Option.bind_eq_bind, Option.bind_some]
    rw [if_pos hlen, hcopy, Option.map_some]
  · intro j c hj
    obtain ⟨hjl, hjc⟩ := List.getElem?_eq_some_iff.mp hj
    rw [List.length_append, List.length_singleton] at hjl
    refine (hc.bytes j hjl).trans ?_
    dsimp only
    split
    · rename_i heq
      obtain rfl : j = line.length := by omega
      simpa using hjc
    · rename_i hjne
      exact hmem j c ((List.getElem?_append_left (by omega)).symm.trans hj)
  · intro x hx hplace
    refine (hc.others x ?_ hplace).trans (hs.mem x hx)
    intro hin
    exact hx (freeByte_earlier hs.since x (hnew x hin))

/-! ## A line for the kernel -/

/-- Someone holds the key a. -/
def keyA : BufferCall := .readline 2 (fun _ => 97) 3

theorem keyA_typed : typed (fun _ => 97) 2 3 = some [97] := by decide

theorem keyA_writesOwn : bootLoad.2.2.WritesOwn bootLoad.2.1 0x400000 keyA.bytes
    (keyA.run bootLoad.2.2 Fat.fragmentedVfs (bootLoad.2.2.process bootLoad.2.1).task 0x400000) := by
  obtain ⟨process, k, dir, table, hload, -, hloaded, hsize, -⟩ := bootLoad_spec
  rw [hload]
  refine (calls_write_own_iff hloaded Fat.fragmentedVfs (by rw [Fat.fragmentedVfs_size]; decide) 0x400000 keyA
    ⟨⟨by decide, by decide⟩, ne_of_eq_of_ne keyA_typed (Option.some_ne_none _)⟩).mpr (Or.inl ?_)
  intro i hi
  have hi' : i < 2 := hi
  refine Or.inl ?_
  rw [hsize]
  show 0x400000 ≤ (0x400000 + i) % 2 ^ 32 ∧ (0x400000 + i) % 2 ^ 32 < 0x400000 + 4096
  omega

/-- It gives an address of the kernel instead, and the line is there. -/
theorem keyA_hits_kernel :
      ∃ k', keyA.run bootLoad.2.2 Fat.fragmentedVfs (bootLoad.2.2.process bootLoad.2.1).task 0x500 = some (1, k') ∧
        k'.mem 0x500 = 97 ∧
    ¬ bootLoad.2.2.WritesOwn bootLoad.2.1 0x500 keyA.bytes
      (keyA.run bootLoad.2.2 Fat.fragmentedVfs (bootLoad.2.2.process bootLoad.2.1).task 0x500) := by
  obtain ⟨process, k, dir, table, hload, hroom, hloaded, hsize, -⟩ := bootLoad_spec
  rw [hload]
  obtain ⟨hfirst, hroom'⟩ := room_kzalloc 2 1 (room_le _ _ hroom (by decide)) (by decide)
  obtain ⟨k', heq, hmem, -⟩ := readline_copies (taskSpace_of_loaded hloaded).toTaskDir (by decide) (fun _ => 97) 2 3
    ⟨by decide, by decide⟩ [97] keyA_typed (by decide) (ownBuffer_zero_page hloaded 0x500 2 (by decide)) hfirst
    fun mem => (room_kzalloc (k := { (k.kzalloc 2).2 with mem := mem }) 2 0 (room_same 1 hroom' rfl rfl) (by decide)).1
  refine ⟨k', heq, hmem 0 97 rfl, ?_⟩
  rintro ⟨r, k'', heq', -, href⟩
  have hout : ¬ k.BufferInside process 0x500 keyA.bytes := by
    intro hin
    rcases hin 0 (by decide) with ⟨hle, -⟩ | ⟨hle, -⟩
    · exact absurd hle (by decide)
    · exact absurd hle (by decide)
  obtain ⟨rfl, -⟩ := Prod.mk.inj (Option.some.inj (heq'.symm.trans heq))
  exact absurd (href hout).1 (by decide)

end PeachOS.Memory
