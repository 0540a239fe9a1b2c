import PeachOS.Fat.View
import PeachOS.Lib.Search

/-!
# The FAT, the root directory and the clusters

One spec per helper of the driver that touches the disk. Each says what the helper does to the view,
and which views the disk goes through on the way.
-/

open PeachOS.Lib PeachOS.Streamer

namespace PeachOS.Fat

/-- `d'` comes from `d` by sector writes, and every view on the way satisfies `Q`. -/
def VSteps (L : Layout) (Q : View → Prop) (d d' : Disk) : Prop := Steps (fun s => Q (L.view s)) d d'

theorem vsteps_refl (L : Layout) (Q : View → Prop) (d : Disk) (h : Q (L.view d.sector)) :
    VSteps L Q d d := steps_refl _ d h

theorem vsteps_trans (L : Layout) (Q : View → Prop) (d e f : Disk) (h1 : VSteps L Q d e)
    (h2 : VSteps L Q e f) : VSteps L Q d f := steps_trans _ d e f h1 h2

theorem vsteps_last (L : Layout) (Q : View → Prop) (d d' : Disk) (h : VSteps L Q d d') :
    Q (L.view d'.sector) := steps_last _ d d' h

theorem vsteps_mono (L : Layout) (Q R : View → Prop) (d d' : Disk) (h : VSteps L Q d d')
    (hqr : ∀ σ, Q σ → R σ) : VSteps L R d d' := steps_mono _ _ d d' h (fun s => hqr (L.view s))

variable {p : FatPrivate} {L : Layout}

/-! ## Positions -/

theorem regions_below (hL : L.Wf) :
    L.fatPos ≤ L.mirrorPos ∧ L.mirrorPos ≤ L.rootPos ∧ L.rootPos ≤ L.dataPos ∧ L.dataPos ≤ 0x80000000 := by
  have := hL.below
  unfold Layout.fatPos Layout.mirrorPos Layout.dataPos Layout.rootPos at *
  omega

theorem fat_entry_below (hL : L.Wf) (c : Nat) (hc : c < L.entries) :
    L.fatPos + 2 * c + 2 ≤ 0x80000000 ∧ L.mirrorPos + 2 * c + 2 ≤ 0x80000000 := by
  have := regions_below hL
  unfold Layout.entries at hc
  unfold Layout.fatPos Layout.mirrorPos Layout.rootPos at *
  constructor <;> linarith

theorem mirrorPos_eq : L.mirrorPos = L.fatPos + L.spf * 512 := by
  unfold Layout.fatPos Layout.mirrorPos
  omega

theorem inRange_entries (hL : L.Wf) (c : Nat) (hc : L.InRange c) : c < L.entries := by
  have := hL.room
  have := hc.2
  omega

theorem cluster_below (hL : L.Wf) (c : Nat) (hc : L.InRange c) :
    L.clusterPos c + L.clusterSize ≤ 0x80000000 := by
  obtain ⟨h2, hlt⟩ := hc
  have hm := Nat.mul_le_mul_right L.clusterSize (show c - 2 + 1 ≤ L.clusters by omega)
  have hb := hL.below
  rw [Nat.succ_mul] at hm
  unfold Layout.clusterPos
  omega

theorem clusters_lt (hL : L.Wf) : L.clusters ≤ 2 ^ 22 := by
  have hb := hL.below
  have hs := hL.spc_pos
  have hm := Nat.mul_le_mul_left L.clusters (show 512 ≤ L.clusterSize by unfold Layout.clusterSize; omega)
  omega

/-! ## FAT entries -/

theorem get_fat_entry_at (p : FatPrivate) (d : Disk) (c : Nat)
    (h : p.header.reserved_sectors.toNat * 512 + 2 * c + 2 ≤ 0x80000000) :
    fat16_get_fat_entry p d c =
      le16 fun i => cellAt d.sector (p.header.reserved_sectors.toNat * 512 + 2 * c + i) := by
  set pos := p.header.reserved_sectors.toNat * 512 + 2 * c with hpos
  have hi : i32 ((fat16_get_first_fat_sector p : Int) * 512 + (c : Int) * 2) = (pos : Int) := by
    rw [fat16_get_first_fat_sector, show (p.header.reserved_sectors.toNat : Int) * 512 + c * 2 = (pos : Int) by
      omega]
    exact i32_of_lt _ (by omega) (by omega)
  unfold fat16_get_fat_entry
  simp only [diskstreamer_seek, diskstreamer_new, hi, lt_self_iff_false, if_false]
  rw [show (2 : Int) = ((2 : Nat) : Int) from rfl, diskstreamer_read_spec d _ _ 2 h (Or.inr (by omega))]
  rfl

theorem fat16_get_fat_entry_spec (hm : Mounted p L) (hL : L.Wf) (d : Disk) (c : Nat)
    (hc : c < L.entries) : fat16_get_fat_entry p d c = ((L.view d.sector).fat c : Int) := by
  obtain ⟨hb, -⟩ := fat_entry_below hL c hc
  unfold Layout.fatPos at hb
  rw [get_fat_entry_at p d c (by rw [hm.reserved]; exact hb), hm.reserved]
  simp only [Layout.view, if_pos hc, Layout.fatPos]

theorem set_fat_entry_at (p : FatPrivate) (d : Disk) (c v pos mirror : Nat)
    (hpos : pos = p.header.reserved_sectors.toNat * 512 + 2 * c)
    (hmirror : mirror = pos + p.header.sectors_per_fat.toNat * 512) (h : mirror + 2 ≤ 0x80000000) :
    ∃ e w1 w2, fat16_set_fat_entry p d c v = (0, e) ∧ e.stack = d.stack ∧
      e.writes = d.writes ++ [w1, w2] ∧ e.sector = applyWrites [w1, w2] d.sector ∧
      applyWrites [w1] d.sector = spliced d.sector pos 2 (bytes16 v) ∧
      e.sector = spliced (spliced d.sector pos 2 (bytes16 v)) mirror 2 (bytes16 v) := by
  have hoff : u32 ((fat16_get_first_fat_sector p : Int) * 512 + (c : Int) * 2) = pos := by
    unfold fat16_get_first_fat_sector
    rw [show (p.header.reserved_sectors.toNat : Int) * 512 + c * 2 = (pos : Int) by omega, u32_natCast]
    exact Nat.mod_eq_of_lt (by omega)
  have hoff2 : u32 ((pos : Int) + (p.header.sectors_per_fat.toNat : Int) * 512) = mirror := by
    rw [show (pos : Int) + (p.header.sectors_per_fat.toNat : Int) * 512 = (mirror : Int) by omega, u32_natCast]
    exact Nat.mod_eq_of_lt (by omega)
  have hi1 : i32 (pos : Int) = (pos : Int) := i32_of_lt _ (by omega) (by omega)
  have hi2 : i32 (mirror : Int) = (mirror : Int) := i32_of_lt _ (by omega) (by omega)
  obtain ⟨d1, st1, b1, heq1, hst1, hs1, hd1, hw1, ha1⟩ := diskstreamer_write_one d pos (bytes16 v) 2
    (by omega) (by omega)
  obtain ⟨d2, st2, b2, heq2, -, hs2, hd2, hw2, ha2⟩ := diskstreamer_write_one d1 mirror (bytes16 v) 2
    h (by omega)
  refine ⟨d2, (pos / 512, b1), (mirror / 512, b2), ?_, by rw [hs2, hs1], ?_, ?_, by rw [← ha1, hd1],
    by rw [hd2, hd1]⟩
  · unfold fat16_set_fat_entry
    simp only [diskstreamer_seek, diskstreamer_new, hoff, hoff2, hi1, hi2, lt_self_iff_false, if_false,
      heq1, hst1, heq2]
  · rw [hw2, hw1, List.append_assoc, List.singleton_append]
  · rw [ha2, ha1, ← applyWrites_append, List.singleton_append]

theorem fat16_set_fat_entry_writes (hm : Mounted p L) (hL : L.Wf) (d : Disk) (c v : Nat)
    (hc : c < L.entries) (hv : v < 65536) :
    ∃ e w1 w2, fat16_set_fat_entry p d c v = (0, e) ∧ e.stack = d.stack ∧
      e.writes = d.writes ++ [w1, w2] ∧ e.sector = applyWrites [w1, w2] d.sector ∧
      L.view (applyWrites [w1] d.sector) = (L.view d.sector).setFat c v ∧
      L.view e.sector = (L.view d.sector).setBoth c v := by
  obtain ⟨-, hb⟩ := fat_entry_below hL c hc
  obtain ⟨e, w1, w2, heq, hs, hw, ha, h1, h2⟩ := set_fat_entry_at p d c v (L.fatPos + 2 * c)
    (L.mirrorPos + 2 * c) (by rw [hm.reserved]; rfl) (by rw [hm.spf, mirrorPos_eq]; omega) hb
  have hv1 : L.view (spliced d.sector (L.fatPos + 2 * c) 2 (bytes16 v)) = (L.view d.sector).setFat c v :=
    view_splice_fat L d.sector c v hc hv
  refine ⟨e, w1, w2, heq, hs, hw, ha, by rw [h1, hv1], ?_⟩
  rw [h2, view_splice_mirror L _ c v hc hv, hv1]
  rfl

theorem fat16_set_fat_entry_spec (Q : View → Prop) (hm : Mounted p L) (hL : L.Wf) (d : Disk) (c v : Nat)
    (hc : c < L.entries) (hv : v < 65536) (h0 : Q (L.view d.sector))
    (h1 : Q ((L.view d.sector).setFat c v)) (h2 : Q ((L.view d.sector).setBoth c v)) :
    ∃ e, fat16_set_fat_entry p d c v = (0, e) ∧ L.view e.sector = (L.view d.sector).setBoth c v ∧
      VSteps L Q d e := by
  obtain ⟨e, w1, w2, heq, hs, hw, ha, hv1, hv2⟩ := fat16_set_fat_entry_writes hm hL d c v hc hv
  refine ⟨e, heq, hv2, hs, [w1, w2], hw, ha, ?_⟩
  refine through_append _ d.sector [w1] [w2] ?_ ?_
  · refine through_single _ d.sector w1.1 w1.2 h0 ?_
    rw [← hv1] at h1
    exact h1
  · rw [← hv1] at h1
    refine through_single _ _ w2.1 w2.2 h1 ?_
    rw [← hv2, ha] at h2
    exact h2

/-! ## Allocation -/

/-- A FAT value that ends the walk along a chain. -/
def Stop (v : Nat) : Prop := v < 2 ∨ 0xFFF8 ≤ v

instance (v : Nat) : Decidable (Stop v) := inferInstanceAs (Decidable (_ ∨ _))

theorem stop_iff (v : Nat) : ((v : Int) < 2 ∨ (v : Int) ≥ fat16EocMin) ↔ Stop v := by
  unfold Stop fat16EocMin
  omega

theorem find_free_cluster_first (p : FatPrivate) (d : Disk) :
    (∃ c : Nat, fat16_find_free_cluster p d = c ∧
      First (fun i => fat16_get_fat_entry p d i = 0) 2 (fat16_clusters p) c) ∨
    (fat16_find_free_cluster p d = -ENOMEM ∧
      ∀ i, 2 ≤ i → i < 2 + fat16_clusters p → ¬ fat16_get_fat_entry p d i = 0) :=
  search_spec (fat16_find_free_cluster_loop p d) (-ENOMEM) (fun _ => rfl) (fun _ _ => rfl) _ 2

theorem fat16_find_free_cluster_spec (hm : Mounted p L) (hL : L.Wf) (d : Disk) :
    (∃ c : Nat, fat16_find_free_cluster p d = (c : Int) ∧ L.InRange c ∧ (L.view d.sector).fat c = 0) ∨
    (fat16_find_free_cluster p d = -ENOMEM ∧ ∀ c, L.InRange c → (L.view d.sector).fat c ≠ 0) := by
  have hentry : ∀ c, L.InRange c → fat16_get_fat_entry p d c = ((L.view d.sector).fat c : Int) := by
    intro c hc
    exact fat16_get_fat_entry_spec hm hL d c (inRange_entries hL c hc)
  have hfind := find_free_cluster_first p d
  rw [hm.clusters] at hfind
  rcases hfind with ⟨c, heq, hfirst⟩ | ⟨heq, hnone⟩
  · have hc : L.InRange c := ⟨hfirst.ge, by have := hfirst.lt; omega⟩
    have hzero := hfirst.holds
    rw [hentry c hc] at hzero
    exact Or.inl ⟨c, heq, hc, by omega⟩
  · refine Or.inr ⟨heq, ?_⟩
    intro c hc
    have hne := hnone c hc.1 (by have := hc.2; omega)
    rw [hentry c hc] at hne
    omega

/-- No cluster is free. -/
def Full (L : Layout) (σ : View) : Prop := ∀ c, L.InRange c → σ.fat c ≠ 0

theorem fat16_alloc_cluster_first (Q : View → Prop) (hm : Mounted p L) (hL : L.Wf) (d : Disk)
    (h0 : Q (L.view d.sector))
    (hQ : ∀ n, L.InRange n → (L.view d.sector).fat n = 0 →
      Q ((L.view d.sector).setFat n fat16Eoc) ∧ Q ((L.view d.sector).setBoth n fat16Eoc)) :
    (fat16_alloc_cluster p d (-1) = (-ENOMEM, d) ∧ Full L (L.view d.sector)) ∨
    ∃ (n : Nat) (e : Disk), fat16_alloc_cluster p d (-1) = ((n : Int), e) ∧ L.InRange n ∧
      (L.view d.sector).fat n = 0 ∧ L.view e.sector = (L.view d.sector).setBoth n fat16Eoc ∧
      VSteps L Q d e := by
  unfold fat16_alloc_cluster
  rcases fat16_find_free_cluster_spec hm hL d with ⟨n, heq, hn, hz⟩ | ⟨heq, hfull⟩
  · obtain ⟨hQ1, hQ2⟩ := hQ n hn hz
    obtain ⟨e, hset, hview, hsteps⟩ := fat16_set_fat_entry_spec Q hm hL d n fat16Eoc
      (inRange_entries hL n hn) (by decide) h0 hQ1 hQ2
    refine Or.inr ⟨n, e, ?_, hn, hz, hview, hsteps⟩
    simp only [heq, hset, if_neg (show ¬ ((n : Int) < 0) by omega), lt_self_iff_false, if_false]
    rfl
  · refine Or.inl ⟨?_, hfull⟩
    simp only [heq]
    rfl

theorem fat16_alloc_cluster_linked (Q : View → Prop) (hm : Mounted p L) (hL : L.Wf) (d : Disk) (c : Nat)
    (hc : L.InRange c) (h0 : Q (L.view d.sector))
    (hQ : ∀ n, L.InRange n → (L.view d.sector).fat n = 0 →
      Q ((L.view d.sector).setFat n fat16Eoc) ∧ Q ((L.view d.sector).setBoth n fat16Eoc) ∧
      Q (((L.view d.sector).setBoth n fat16Eoc).setFat c (n % 65536)) ∧
      Q (((L.view d.sector).setBoth n fat16Eoc).setBoth c (n % 65536))) :
    (fat16_alloc_cluster p d c = (-ENOMEM, d) ∧ Full L (L.view d.sector)) ∨
    ∃ (n : Nat) (e : Disk), fat16_alloc_cluster p d c = ((n : Int), e) ∧ L.InRange n ∧ (L.view d.sector).fat n = 0 ∧
      L.view e.sector = ((L.view d.sector).setBoth n fat16Eoc).setBoth c (n % 65536) ∧
      VSteps L Q d e := by
  have hc2 : (c : Int) ≥ 2 := by have := hc.1; omega
  unfold fat16_alloc_cluster
  rcases fat16_find_free_cluster_spec hm hL d with ⟨n, heq, hn, hz⟩ | ⟨heq, hfull⟩
  · obtain ⟨hQ1, hQ2, hQ3, hQ4⟩ := hQ n hn hz
    obtain ⟨e, hset, hview, hsteps⟩ := fat16_set_fat_entry_spec Q hm hL d n fat16Eoc
      (inRange_entries hL n hn) (by decide) h0 hQ1 hQ2
    rw [← hview] at hQ2 hQ3 hQ4
    obtain ⟨f, hset', hview', hsteps'⟩ := fat16_set_fat_entry_spec Q hm hL e c (n % 65536)
      (inRange_entries hL c hc) (by omega) hQ2 hQ3 hQ4
    have hu : u16 (n : Int) = n % 65536 := by
      unfold u16
      omega
    refine Or.inr ⟨n, f, ?_, hn, hz, by rw [hview', hview], vsteps_trans L Q d e f hsteps hsteps'⟩
    simp only [heq, hset, if_neg (show ¬ ((n : Int) < 0) by omega), lt_self_iff_false, if_false,
      if_pos hc2, hu, hset']
  · refine Or.inl ⟨?_, hfull⟩
    simp only [heq]
    rfl

/-! ## Data and directory entries -/

theorem fat16_cluster_to_sector_spec (hm : Mounted p L) (hL : L.Wf) (c : Nat) (hc : L.InRange c) :
    fat16_cluster_to_sector p c * 512 = (L.clusterPos c : Int) := by
  have hb := cluster_below hL c hc
  have hc2 := hc.1
  have hrde := hL.rde16
  have hcp : L.clusterPos c = (L.reserved + 2 * L.spf + L.rde * 32 / 512 + (c - 2) * L.spc) * 512 := by
    unfold Layout.clusterPos Layout.dataPos Layout.rootPos Layout.clusterSize
    rw [← Nat.mul_assoc]
    omega
  unfold fat16_cluster_to_sector
  rw [hm.ending, hm.spc, show (c : Int) - 2 = ((c - 2 : Nat) : Int) by omega, ← Int.natCast_mul,
    ← Int.natCast_add, i32_of_lt _ (by omega) (by omega), hcp]
  omega

theorem fat16_write_cluster_data_spec (Q : View → Prop) (hm : Mounted p L) (hL : L.Wf) (d : Disk)
    (c off : Nat) (buf : Nat → UInt8) (n : Nat) (hc : L.InRange c) (h0 : 0 < n)
    (hn : off + n ≤ L.clusterSize) (hQ : ∀ m ≤ n, Q ((L.view d.sector).setData c off m buf)) :
    ∃ e, fat16_write_cluster_data p d c off buf n = (0, e) ∧
      L.view e.sector = (L.view d.sector).setData c off n buf ∧ VSteps L Q d e := by
  have hb := cluster_below hL c hc
  have hpos : i32 (fat16_cluster_to_sector p c * 512 + (off : Int)) = ((L.clusterPos c + off : Nat) : Int) := by
    rw [fat16_cluster_to_sector_spec hm hL c hc, i32_of_lt _ (by omega) (by omega)]
    omega
  obtain ⟨e, stream, heq, -, hes, hsteps⟩ := diskstreamer_write_spec (fun s => Q (L.view s)) d
    (L.clusterPos c + off) buf n (by omega) (by
      intro m hmn _
      rw [view_splice_data L d.sector m buf c off hc (by omega)]
      exact hQ m hmn)
  refine ⟨e, ?_, by rw [hes, view_splice_data L d.sector n buf c off hc hn], hsteps⟩
  unfold fat16_write_cluster_data
  simp only [diskstreamer_seek, diskstreamer_new, hpos, heq, lt_self_iff_false, if_false]

theorem fat16_write_root_dir_entry_spec (hm : Mounted p L) (hL : L.Wf) (d : Disk) (i : Nat)
    (hi : i < L.rde) :
    ∃ e w, fat16_write_root_dir_entry p d i = (0, e) ∧ e.stack = d.stack ∧
      e.writes = d.writes ++ [w] ∧ e.sector = applyWrites [w] d.sector ∧
      L.view e.sector = (L.view d.sector).setDir i (p.root_directory.item i) := by
  have hb := regions_below hL
  have hend : L.rootPos + 32 * i + 32 ≤ L.dataPos := by
    unfold Layout.dataPos
    omega
  have hpos : i32 (p.root_directory.sector_pos * 512 + (i : Int) * 32) =
      ((L.rootPos + 32 * i : Nat) : Int) := by
    rw [hm.sector_pos, i32_of_lt _ ?_ ?_] <;> unfold Layout.rootPos at * <;> omega
  obtain ⟨e, stream, b, heq, -, hs, hes, hw, ha⟩ := diskstreamer_write_one d (L.rootPos + 32 * i)
    (p.root_directory.item i).byte 32 (by omega) (by unfold Layout.rootPos; omega)
  refine ⟨e, _, ?_, hs, hw, ha, by rw [hes, view_splice_dir L d.sector i _ hi]⟩
  unfold fat16_write_root_dir_entry
  simp only [diskstreamer_seek, diskstreamer_new, hpos, heq, lt_self_iff_false, if_false]

end PeachOS.Fat
