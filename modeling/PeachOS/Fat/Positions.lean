import PeachOS.Fat.Regions
import PeachOS.Spec.Positions

/-!
# Which clusters have byte positions

The position of a byte is exact if and only if it is below 2 GiB. So an accepted header is safe exactly if
its clusters end there or before; the header of the boot sector is not.
-/

open PeachOS.Lib PeachOS.Streamer

namespace PeachOS.Fat

variable {p : FatPrivate}

theorem seeksTo_bytePos (p : FatPrivate) (c off : Nat) : SeeksTo p c off (bytePos p c off) := by
  constructor
  · intro d buf len
    rfl
  · intro d cluster fuel offset total out hc hoff
    rw [fat16_read_internal_rec]
    dsimp only
    rw [hc, hoff, if_neg (by omega)]
    rfl

theorem exact_of_below (hp : Located p) (c off : Nat) (h2 : 2 ≤ c)
    (h : p.header.clusterSector c * 512 + off < 0x80000000) : PositionExact p.header c off (bytePos p c off) := by
  obtain ⟨s, hs⟩ : ∃ s, p.header.clusterSector c = s := ⟨_, rfl⟩
  have hsum : (p.header.dataSector : Int) + ((c : Int) - 2) * p.header.sectors_per_cluster.toNat = (s : Int) := by
    rw [← hs, FatHeader.clusterSector]
    push_cast [h2]
    rfl
  rw [hs] at h
  have hsec : fat16_cluster_to_sector p c = (s : Int) := by
    rw [fat16_cluster_to_sector, hp.ending, hsum]
    exact i32_of_lt _ (by omega) (by omega)
  have hpos : bytePos p c off = ((s * 512 + off : Nat) : Int) := by
    rw [bytePos, hsec, i32_of_lt _ (by omega) (by omega)]
    omega
  rw [hpos]
  refine ⟨by rw [hs]; omega, by omega, ?_⟩
  rw [hs, Int.tdiv_eq_ediv_of_nonneg (by omega), show ((s * 512 + off : Nat) : Int) / 512 =
    ((s + off / 512 : Nat) : Int) by omega, u32_natCast]
  omega

theorem below_of_exact (c off : Nat) (h : PositionExact p.header c off (bytePos p c off)) :
    p.header.clusterSector c * 512 + off < 0x80000000 := by
  have hv := h.value
  have hlt : bytePos p c off < 0x80000000 := by
    unfold bytePos i32
    rw [Int.bmod_def]
    split <;> omega
  omega

theorem cluster_above (hp : Located p) (h : ¬ p.header.EndsBelow) :
    ∃ c off, CanReturn p c ∧ off < fat16_cluster_size p ∧
      0x80000000 ≤ p.header.clusterSector c * 512 + off := by
  unfold FatHeader.EndsBelow at h
  obtain ⟨hno, hone, hend⟩ : ¬ p.header.NoCluster ∧ p.header.clusters ≠ 0 ∧
      0x400000 < p.header.dataSector + p.header.clusters * p.header.sectors_per_cluster.toNat := by
    refine ⟨fun hn => h (Or.inl hn), fun hn => h (Or.inr (Or.inl hn)), ?_⟩
    by_contra hle
    exact h (Or.inr (Or.inr (by omega)))
  have hspc : 0 < p.header.sectors_per_cluster.toNat := by
    apply Nat.pos_of_ne_zero
    intro h0
    apply hone
    rw [FatHeader.clusters, h0, Nat.div_zero]
  have hcount := count_of_clusters p hp
  rw [if_neg hno] at hcount
  have hR := p.header.reserved_sectors.toNat_lt
  have hroom := Nat.mul_pos (Nat.pos_of_ne_zero hone) hspc
  obtain ⟨q, r, hq, hq22, hr, hqr⟩ := cluster_at_limit p.header hspc (by omega)
  refine ⟨q + 2, r * 512, canReturn_of_range p (q + 2) (by omega) (by omega) (by omega), ?_, ?_⟩
  · unfold fat16_cluster_size
    omega
  · unfold FatHeader.clusterSector
    rw [Nat.add_sub_cancel]
    omega

/-- For every accepted header, every cluster that `fat16_find_free_cluster` can return and every offset in it:
the position is exact if and only if it is below 2 GiB. All are, if and only if the clusters end below. -/
theorem positions_exact_iff (fuel : Nat) (d : Disk) (alloc : Bool) (mem : Nat → UInt8) (v : Volume)
    (h : fat16_resolve fuel d alloc mem = some (.ok v)) :
    (∀ c off, CanReturn v.priv c → off < fat16_cluster_size v.priv →
      SeeksTo v.priv c off (bytePos v.priv c off) ∧
      (PositionExact v.priv.header c off (bytePos v.priv c off) ↔
        v.priv.header.clusterSector c * 512 + off < 0x80000000)) ∧
    ((∀ c off, CanReturn v.priv c → off < fat16_cluster_size v.priv →
      PositionExact v.priv.header c off (bytePos v.priv c off)) ↔ v.priv.header.EndsBelow) := by
  have hp := fat16_resolve_located fuel d alloc mem v h
  refine ⟨?_, ?_, ?_⟩
  · intro c off hc _
    exact ⟨seeksTo_bytePos v.priv c off,
      below_of_exact c off, exact_of_below hp c off (range_of_canReturn v.priv c hc).1⟩
  · intro hall
    by_contra hend
    obtain ⟨c, off, hc, hoff, habove⟩ := cluster_above hp hend
    have := below_of_exact c off (hall c off hc hoff)
    omega
  · intro hend c off hc hoff
    obtain ⟨h2, hlt⟩ := range_of_canReturn v.priv c hc
    rw [count_of_clusters v.priv hp] at hlt
    refine exact_of_below hp c off h2 ?_
    rcases hend with hno | hzero | hle
    · rw [if_pos hno] at hlt
      omega
    · rw [hzero, ite_self] at hlt
      omega
    · have hlt' : c - 2 + 1 ≤ v.priv.header.clusters := by
        split at hlt <;> omega
      have hm := Nat.mul_le_mul_right v.priv.header.sectors_per_cluster.toNat hlt'
      rw [Nat.succ_mul] at hm
      unfold fat16_cluster_size at hoff
      unfold FatHeader.clusterSector
      omega

theorem sample_free : fat16_find_free_cluster sample.priv sampleDisk = (3 : Nat) ∧ sample.priv.header.EndsBelow := by
  decide +kernel

theorem sample_positions : CanReturn sample.priv 3 ∧
    PositionExact sample.priv.header 3 7 (bytePos sample.priv 3 7) := by
  obtain ⟨hfree, hend⟩ := sample_free
  have hall := (positions_exact_iff 3 sampleDisk true (fun _ => 0) sample sample_mounts).2.mpr hend
  exact ⟨⟨sampleDisk, hfree⟩, hall 3 7 ⟨sampleDisk, hfree⟩ (by rw [sample_size]; omega)⟩

/-- The header in `boot.asm`. -/
def bootHeader : FatHeader := ⟨0x80, 200, 2, 0x40, 0, 0x100, 0x773594, 0x29⟩

/-- A disk with that header and an empty root directory. -/
def bootDisk : Disk where
  sector i j :=
    if i ≠ 0 then 0
    else if (j : Nat) = 13 then 0x80 else if (j : Nat) = 14 then 200 else if (j : Nat) = 16 then 2
    else if (j : Nat) = 17 then 0x40 else if (j : Nat) = 23 then 1 else if (j : Nat) = 32 then 0x94
    else if (j : Nat) = 33 then 0x35 else if (j : Nat) = 34 then 0x77 else if (j : Nat) = 38 then 0x29 else 0
  writes := []
  stack := fun _ => 0

theorem bootDisk_mounts : ∃ v, fat16_resolve 3 bootDisk true (fun _ => 0) = some (.ok v) ∧
    v.priv.header = bootHeader := by
  have h : mountsWith (fun v => v.priv.header = bootHeader) (fat16_resolve 3 bootDisk true fun _ => 0) = true := by
    decide +kernel
  obtain ⟨v, hv, hheader⟩ := mountsWith_some _ h
  exact ⟨v, hv, of_decide_eq_true hheader⟩

/-- The first byte of cluster 32765 is at 2147522560, which is kept as a negative number. -/
theorem boot_wraps : ∃ v, fat16_resolve 3 bootDisk true (fun _ => 0) = some (.ok v) ∧
    v.priv.header = bootHeader ∧ CanReturn v.priv 32765 ∧ 0 < fat16_cluster_size v.priv ∧
    SeeksTo v.priv 32765 0 (-2147444736) ∧ ¬ PositionExact v.priv.header 32765 0 (-2147444736) := by
  obtain ⟨v, hv, hheader⟩ := bootDisk_mounts
  have hp := fat16_resolve_located _ _ _ _ v hv
  have hdata : bootHeader.dataSector = 716 ∧ bootHeader.clusters = 61029 ∧ ¬ bootHeader.NoCluster := by
    decide +kernel
  have hcount := count_of_clusters v.priv hp
  rw [hheader, if_neg hdata.2.2, hdata.2.1] at hcount
  have hpos : bytePos v.priv 32765 0 = -2147444736 := by
    rw [bytePos, fat16_cluster_to_sector, hp.ending, hheader, hdata.1]
    decide
  refine ⟨v, hv, hheader, ?_, ?_, ?_, ?_⟩
  · refine canReturn_of_range v.priv 32765 (by omega) (by omega) ?_
    rw [hheader]
    decide
  · rw [fat16_cluster_size, hheader]
    decide
  · have hseeks := seeksTo_bytePos v.priv 32765 0
    rwa [hpos] at hseeks
  · intro hexact
    exact absurd hexact.nonneg (by decide)

end PeachOS.Fat
