import PeachOS.Fat.Table
import PeachOS.Spec.Freeing
import Mathlib.Order.Interval.Finset.Nat

/-!
# Freeing along any FAT

`fat16_free_cluster_chain` on tables that need not hold chains at all. The loop is an erasing walk: the
entry of a cluster is zeroed before its link is followed.
-/

open PeachOS.Lib PeachOS.Streamer

namespace PeachOS.Fat

variable (p : FatPrivate)

theorem loop_eq_within (n m : Nat) (d e : Disk) (c : Int) (h : freeChainWithin p n d c = some e)
    (hnm : n ≤ m) : fat16_free_cluster_chain_loop p m d c = e := by
  induction n generalizing m d c with
  | zero => simp [freeChainWithin] at h
  | succ n ih =>
    obtain ⟨m, rfl⟩ : ∃ k, m = k + 1 := ⟨m - 1, by omega⟩
    unfold freeChainWithin at h
    unfold fat16_free_cluster_chain_loop
    dsimp only at h ⊢
    split at h
    · rename_i hc
      rw [if_pos hc]
      split at h
      · rename_i hnext
        rw [if_pos hnext]
        exact Option.some.inj h
      · rename_i hnext
        rw [if_neg hnext]
        exact ih m _ _ h (by omega)
    · rename_i hc
      rw [if_neg hc]
      exact Option.some.inj h

theorem within_mono (n m : Nat) (d e : Disk) (c : Int) (h : freeChainWithin p n d c = some e)
    (hnm : n ≤ m) : freeChainWithin p m d c = some e := by
  induction n generalizing m d c with
  | zero => simp [freeChainWithin] at h
  | succ n ih =>
    obtain ⟨m, rfl⟩ : ∃ k, m = k + 1 := ⟨m - 1, by omega⟩
    unfold freeChainWithin at h ⊢
    dsimp only at h ⊢
    split at h
    · rename_i hc
      rw [if_pos hc]
      split at h
      · rename_i hnext
        rw [if_pos hnext]
        exact h
      · rename_i hnext
        rw [if_neg hnext]
        exact ih m _ _ h (by omega)
    · rename_i hc
      rw [if_neg hc]
      exact h

theorem entryPos_zero (c : Nat) : entryPos p 0 c = p.header.reserved_sectors.toNat * 512 + 2 * c := by
  simp [entryPos]

theorem entryPos_one (c : Nat) :
    entryPos p 1 c = entryPos p 0 c + p.header.sectors_per_fat.toNat * 512 := by
  unfold entryPos
  omega

theorem entryPos_below (k c : Nat) (hk : k ≤ 1) (hc : c < 2 ^ 24) : entryPos p k c + 2 ≤ 0x80000000 := by
  have hr := p.header.reserved_sectors.toNat_lt
  have hs := p.header.sectors_per_fat.toNat_lt
  rcases (by omega : k = 0 ∨ k = 1) with rfl | rfl <;> unfold entryPos <;> omega

section Turn

/- The disk after the turn of the loop at a cluster, as a function that is only known by what the call
returns. -/
variable (zero : Disk → Nat → Disk) (hzero : ∀ d c, zero d c = (fat16_set_fat_entry p d c 0).2)

include hzero in
theorem zero_cell (d : Disk) (c a : Nat) (hc : c < 65536) :
    (InEntry p c a → cellAt (zero d c).sector a = 0) ∧
    (¬ InEntry p c a → cellAt (zero d c).sector a = cellAt d.sector a) := by
  obtain ⟨e, -, -, heq, -, -, -, -, hsec⟩ := set_fat_entry_at p d c 0 (entryPos p 0 c) (entryPos p 1 c)
    (entryPos_zero p c) (entryPos_one p c) (entryPos_below p 1 c (by omega) (by omega))
  have hbytes : ∀ i, bytes16 0 i = 0 := by
    intro i
    simp [bytes16]
  rw [hzero, heq]
  dsimp only
  rw [hsec, cellAt_spliced, cellAt_spliced, hbytes, hbytes]
  unfold InEntry
  constructor
  · rintro (h | h)
    · rw [if_pos h]
      split <;> rfl
    · rw [if_pos h]
  · intro h
    rw [if_neg (fun h1 => h (Or.inr h1)), if_neg (fun h0 => h (Or.inl h0))]

theorem inEntry_other (hspf : 256 ≤ p.header.sectors_per_fat.toNat) (k c x i : Nat) (hk : k ≤ 1)
    (hc : c < 65536) (hx : x < 256 * p.header.sectors_per_fat.toNat) (hi : i < 2) (hxc : x ≠ c) :
    ¬ InEntry p c (entryPos p k x + i) := by
  have h0 := entryPos_zero p
  have h1 := entryPos_one p
  rcases (by omega : k = 0 ∨ k = 1) with rfl | rfl <;> simp only [InEntry, h1, h0] <;> omega

theorem fatCopy_zeroed (s : Nat → Sector) (k c : Nat) (h : ∀ i < 2, cellAt s (entryPos p k c + i) = 0) :
    fatCopy p s k c = 0 := by
  have h0 := h 0 (by omega)
  have h1 := h 1 (by omega)
  rw [fatCopy, le16, h0, h1]
  rfl

theorem fatCopy_same (s s' : Nat → Sector) (k c : Nat)
    (h : ∀ i < 2, cellAt s' (entryPos p k c + i) = cellAt s (entryPos p k c + i)) :
    fatCopy p s' k c = fatCopy p s k c :=
  le16_congr _ _ (h 0 (by omega)) (h 1 (by omega))

theorem inEntry_self (k c i : Nat) (hk : k ≤ 1) (hi : i < 2) : InEntry p c (entryPos p k c + i) := by
  rcases (by omega : k = 0 ∨ k = 1) with rfl | rfl
  · exact Or.inl (by omega)
  · exact Or.inr (by omega)

include hzero in
theorem fatLink_zero (hspf : 256 ≤ p.header.sectors_per_fat.toNat) (d : Disk) (c : Nat) (hc : c < 65536) :
    fatLink p (zero d c).sector = Function.update (fatLink p d.sector) c 0 := by
  funext x
  by_cases hxc : x = c
  · rw [hxc, Function.update_self, fatLink, if_pos hc]
    exact fatCopy_zeroed p _ 0 c
      (fun i hi => (zero_cell p zero hzero d c _ hc).1 (inEntry_self p 0 c i (by omega) hi))
  · rw [Function.update_of_ne hxc, fatLink, fatLink]
    split
    · rename_i hx
      exact fatCopy_same p _ _ 0 x (fun i hi => (zero_cell p zero hzero d c _ hc).2
        (inEntry_other p hspf 0 c x i (by omega) hc (by omega) hi hxc))
    · rfl

theorem followed_lt (c : Nat) (h : Followed c) : c < 65536 := by
  unfold Followed at h
  omega

theorem get_fat_entry_link (d : Disk) (c : Nat) (hc : c < 65536) :
    fat16_get_fat_entry p d c = (fatLink p d.sector c : Int) := by
  have hb := entryPos_below p 0 c (by omega) (by omega)
  rw [entryPos_zero] at hb
  rw [get_fat_entry_at p d c hb, fatLink, if_pos hc]
  simp only [fatCopy, entryPos_zero]

theorem not_followed_iff (v : Nat) : ((v : Int) < 2 ∨ (v : Int) ≥ fat16EocMin) ↔ ¬ Followed v := by
  unfold Followed fat16EocMin
  omega

include hzero in
theorem within_turn (n : Nat) (d : Disk) (c : Nat) (hc : Followed c) :
    freeChainWithin p (n + 1) d c =
      if Followed (fatLink p d.sector c) then
        freeChainWithin p n (zero d c) (fatLink p d.sector c : Nat)
      else some (zero d c) := by
  rw [freeChainWithin, if_pos (by unfold Followed at hc; unfold fat16EocMin; omega)]
  dsimp only
  rw [get_fat_entry_link p d c (followed_lt c hc), ← hzero]
  by_cases h : Followed (fatLink p d.sector c)
  · rw [if_pos h, if_neg (fun hn => (not_followed_iff _).mp hn h)]
  · rw [if_neg h, if_pos ((not_followed_iff _).mpr h)]

/-- The loop as an erasing walk over the disk. -/
def freeing (hspf : 256 ≤ p.header.sectors_per_fat.toNat) : ErasingWalk Disk Nat Nat UInt8 where
  ok := Followed
  link d := fatLink p d.sector
  erase := zero
  cell d := cellAt d.sector
  touches := InEntry p
  nowhere := 0
  blank := 0
  within n d c := freeChainWithin p n d c
  nowhere_not_ok h := by simp [Followed] at h
  link_erase d c hc := fatLink_zero p zero hzero hspf d c (followed_lt c hc)
  cell_inside d c a hc := (zero_cell p zero hzero d c a (followed_lt c hc)).1
  cell_outside d c a hc := (zero_cell p zero hzero d c a (followed_lt c hc)).2
  within_end n d c hc h := by rw [within_turn p zero hzero n d c hc, if_neg h]
  within_next n d c hc h := by rw [within_turn p zero hzero n d c hc, if_pos h]

end Turn

theorem within_not_followed (n : Nat) (d : Disk) (first : UInt32) (h : ¬ Followed first.toNat) :
    freeChainWithin p (n + 1) d (i32 first.toNat) = some d := by
  have hlt := first.toNat_lt
  rw [freeChainWithin, if_neg]
  unfold Followed at h
  rw [i32, Int.bmod_def, fat16EocMin]
  split <;> omega

theorem free_within (hspf : 256 ≤ p.header.sectors_per_fat.toNat) (d : Disk) (first : UInt32) :
    ∃ e, freeChainWithin p 65536 d (i32 first.toNat) = some e ∧
      (∀ x a, Visited p d.sector first.toNat x → InEntry p x a → cellAt e.sector a = 0) ∧
      ∀ a, (∀ x, Visited p d.sector first.toNat x → ¬ InEntry p x a) →
        cellAt e.sector a = cellAt d.sector a := by
  by_cases h : Followed first.toNat
  · have hcard : (linked 0 (Finset.Icc 2 0xFFF7) (fatLink p d.sector)).card < 65536 := by
      have hle := Finset.card_filter_le (Finset.Icc 2 0xFFF7) (fun x => fatLink p d.sector x ≠ 0)
      rw [Nat.card_Icc] at hle
      unfold linked
      omega
    obtain ⟨zero, hzero⟩ : ∃ zero : Disk → Nat → Disk, ∀ d c, zero d c = (fat16_set_fat_entry p d c 0).2 :=
      ⟨_, fun _ _ => rfl⟩
    obtain ⟨e, heq, hin, hout⟩ := erasingWalk_ends (freeing p zero hzero hspf) (Finset.Icc 2 0xFFF7)
      (fun x hx => Finset.mem_Icc.mpr hx) 65536 d first.toNat h hcard
    have hi : i32 (first.toNat : Int) = (first.toNat : Int) := by
      have := followed_lt _ h
      exact i32_of_lt _ (by omega) (by omega)
    rw [hi]
    exact ⟨e, heq, fun x a hx => hin x a hx.2, fun a ha => hout a (fun x hx => ha x ⟨h, hx⟩)⟩
  · refine ⟨d, within_not_followed p 65535 d first h, ?_, fun a _ => rfl⟩
    intro x a hx
    exact absurd hx.1 h

/-- On every FAT with an entry for each 16-bit cluster number the loop ends. It zeroes both copies of the
entries it came by and leaves every other entry and every other byte of the disk alone. -/
theorem free_chain_visited (hspf : 256 ≤ p.header.sectors_per_fat.toNat) (d : Disk) (first_cluster : UInt32) :
    let e := fat16_free_cluster_chain p d first_cluster.toNat
    (∃ n, ∀ m ≥ n, freeChainWithin p m d (i32 first_cluster.toNat) = some e) ∧
    (∀ c, Visited p d.sector first_cluster.toNat c → fatCopy p e.sector 0 c = 0 ∧ fatCopy p e.sector 1 c = 0) ∧
    (∀ c < 256 * p.header.sectors_per_fat.toNat, ¬ Visited p d.sector first_cluster.toNat c →
      ∀ k ≤ 1, fatCopy p e.sector k c = fatCopy p d.sector k c) ∧
    ∀ a, (∀ c, Visited p d.sector first_cluster.toNat c → ¬ InEntry p c a) →
      cellAt e.sector a = cellAt d.sector a := by
  obtain ⟨e, heq, hin, hout⟩ := free_within p hspf d first_cluster
  have hloop : fat16_free_cluster_chain p d first_cluster.toNat = e :=
    loop_eq_within p 65536 65536 d e _ heq (Nat.le_refl _)
  rw [hloop]
  have hlt : ∀ c, Visited p d.sector first_cluster.toNat c → c < 65536 :=
    fun c hc => followed_lt c (onWay_ok hc.1 c hc.2)
  refine ⟨⟨65536, fun m hm => within_mono p 65536 m d e _ heq hm⟩, ?_, ?_, hout⟩
  · intro c hc
    exact ⟨fatCopy_zeroed p _ 0 c (fun i hi => hin c _ hc (inEntry_self p 0 c i (by omega) hi)),
      fatCopy_zeroed p _ 1 c (fun i hi => hin c _ hc (inEntry_self p 1 c i (by omega) hi))⟩
  · intro c hc hnot k hk
    refine fatCopy_same p _ _ k c (fun i hi => hout _ ?_)
    intro x hx
    refine inEntry_other p hspf k x c i hk (hlt x hx) hc hi ?_
    rintro rfl
    exact hnot hx

/-- A volume with 256 sectors in each copy of the FAT. -/
def wideFat : FatPrivate where
  header := ⟨1, 1, 2, 16, 0, 256, 0x10000, 0x29⟩
  root_directory := ⟨fun _ => .zero, 0, 513, 514⟩

/-- Clusters 2 and 3 are linked to each other, in both copies. -/
def cyclicDisk : Disk where
  sector i j := if i = 1 ∨ i = 257 then bytes16 (if j / 2 = 2 then 3 else if j / 2 = 3 then 2 else 0) (j % 2) else 0
  writes := []
  stack := fun _ => 0

theorem cyclic_visited : Visited wideFat cyclicDisk.sector 2 2 ∧ Visited wideFat cyclicDisk.sector 2 3 := by
  have hlink : fatLink wideFat cyclicDisk.sector 2 = 3 := by decide +kernel
  have h3 : OnWay Followed (fatLink wideFat cyclicDisk.sector) 2 (fatLink wideFat cyclicDisk.sector 2) :=
    .next 2 .first (by rw [hlink]; decide)
  rw [hlink] at h3
  exact ⟨⟨by decide, .first⟩, ⟨by decide, h3⟩⟩

theorem cyclic_freed : ∃ e n, (∀ m ≥ n, freeChainWithin wideFat m cyclicDisk (i32 2) = some e) ∧
    fatCopy wideFat e.sector 0 2 = 0 ∧ fatCopy wideFat e.sector 1 2 = 0 ∧ fatCopy wideFat e.sector 0 3 = 0 ∧
    fatCopy wideFat e.sector 1 3 = 0 := by
  obtain ⟨⟨n, hn⟩, hzero, -, -⟩ := free_chain_visited wideFat (by decide) cyclicDisk 2
  obtain ⟨h2, h3⟩ := cyclic_visited
  exact ⟨_, n, hn, (hzero 2 h2).1, (hzero 2 h2).2, (hzero 3 h3).1, (hzero 3 h3).2⟩

end PeachOS.Fat
