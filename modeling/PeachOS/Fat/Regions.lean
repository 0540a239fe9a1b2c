import PeachOS.Fat.Mount
import PeachOS.Spec.Regions

/-!
# Which headers keep the regions of the disk apart

`fat16_resolve` accepts every header with the right signature. The sound ones among them are those for which
no position wraps around, the FAT is large enough, the root directory fills its sectors and there are two FAT
copies. With no cluster to find, only the root directory matters.
-/

open PeachOS.Lib PeachOS.Streamer

namespace PeachOS.Fat

/-! ## Positions -/

theorem rootSector_le (h : FatHeader) : h.rootSector ≤ 16776960 := by
  have hr := h.reserved_sectors.toNat_lt
  have hm := Nat.mul_le_mul (Nat.le_of_lt_succ h.fat_copies.toNat_lt)
    (Nat.le_of_lt_succ h.sectors_per_fat.toNat_lt)
  unfold FatHeader.rootSector
  omega

theorem dataSector_le (h : FatHeader) : h.dataSector ≤ 16781055 := by
  have := rootSector_le h
  have := h.root_dir_entries.toNat_lt
  unfold FatHeader.dataSector
  omega

/-- Where a mounted driver finds the root directory and the clusters. -/
structure Located (p : FatPrivate) : Prop where
  sector_pos : p.root_directory.sector_pos = p.header.rootSector
  ending : p.root_directory.ending_sector_pos = p.header.dataSector

theorem fat16_resolve_located (fuel : Nat) (d : Disk) (alloc : Bool) (mem : Nat → UInt8) (v : Volume)
    (h : fat16_resolve fuel d alloc mem = some (.ok v)) : Located v.priv := by
  obtain ⟨-, hroot⟩ := fat16_resolve_cases fuel d alloc mem v h
  obtain ⟨pos, size, hpos, hsize, -, hsp, hend, -⟩ := fat16_get_root_directory_cases fuel d _ alloc mem _ hroot
  have hpos' : pos = v.priv.header.rootSector := by
    rw [hpos, FatHeader.rootSector]
    push_cast
    omega
  constructor
  · rw [hsp, hpos']
  · rw [hend, hpos', hsize, Int.tdiv_eq_ediv_of_nonneg (by omega), FatHeader.dataSector]
    omega

theorem set_fat_entry_sector (p : FatPrivate) (d : Disk) (c v : Nat)
    (h : (p.header.reserved_sectors.toNat + p.header.sectors_per_fat.toNat) * 512 + 2 * c + 2 ≤ 0x80000000) :
    (fat16_set_fat_entry p d c v).2.sector =
      spliced (spliced d.sector (p.header.reserved_sectors.toNat * 512 + 2 * c) 2 (bytes16 v))
        ((p.header.reserved_sectors.toNat + p.header.sectors_per_fat.toNat) * 512 + 2 * c) 2 (bytes16 v) := by
  obtain ⟨e, -, -, heq, -, -, -, -, hsec⟩ := set_fat_entry_at p d c v _ _ rfl
    (by omega : (p.header.reserved_sectors.toNat + p.header.sectors_per_fat.toNat) * 512 + 2 * c =
      p.header.reserved_sectors.toNat * 512 + 2 * c + p.header.sectors_per_fat.toNat * 512) h
  rw [heq]
  exact hsec

theorem write_at (d : Disk) (pos : Nat) (inp : Nat → UInt8) (n : Nat) (h : pos + n ≤ 0x80000000) :
    (diskstreamer_write d ⟨pos, 0⟩ inp n).2.1.sector = spliced d.sector pos n inp := by
  obtain ⟨e, stream, heq, -, hsec, -⟩ := diskstreamer_write_spec (fun _ => True) d pos inp n h fun _ _ _ => trivial
  rw [heq]
  exact hsec

theorem write_sector_start (d : Disk) (pos : Int) (inp : Nat → UInt8) (n : Nat) (hpos : pos % 512 = 0)
    (h0 : 0 < n) (hn : n ≤ 512) :
    cellAt (diskstreamer_write d ⟨pos, 0⟩ inp n).2.1.sector (u32 (pos / 512) * 512) = inp 0 := by
  have hdiv : pos.tdiv 512 = pos / 512 := Int.tdiv_eq_ediv_of_dvd (Int.dvd_of_emod_eq_zero hpos)
  have hmod : pos.tmod 512 = 0 := Int.tmod_eq_zero_of_dvd (Int.dvd_of_emod_eq_zero hpos)
  unfold diskstreamer_write
  rw [diskstreamer_write_rec]
  simp only [hdiv, hmod, disk_read_block, disk_write_block, ne_eq, not_true_eq_false, if_false, lt_self_iff_false]
  rw [if_neg (show ¬ n > (512 - (0 : Int)).toNat by omega), if_neg (lt_irrefl n)]
  have hcell := cellAt_mul_add (fun i => if i = u32 (pos / 512) then
    Sector.copy (d.sector (u32 (pos / 512))) 0 inp n else d.sector i) (u32 (pos / 512)) (0 : Fin 512)
  rw [Fin.val_zero, Nat.add_zero] at hcell
  rw [hcell, if_pos rfl, Sector.copy, if_pos (by simp; omega)]
  rfl

theorem seek_write (d : Disk) (pos : Int) (inp : Nat → UInt8) (n : Nat) (res : Int × Disk)
    (h : res = if (diskstreamer_seek diskstreamer_new pos).1 < 0 then
        ((diskstreamer_seek diskstreamer_new pos).1, d)
      else ((diskstreamer_write d (diskstreamer_seek diskstreamer_new pos).2 inp n).1,
        (diskstreamer_write d (diskstreamer_seek diskstreamer_new pos).2 inp n).2.1)) :
    res.2 = (diskstreamer_write d ⟨pos, 0⟩ inp n).2.1 := by
  subst h
  rfl

theorem write_cluster_at (p : FatPrivate) (hp : Located p) (d : Disk) (c off : Nat) (buf : Nat → UInt8)
    (len : Nat) (h2 : 2 ≤ c)
    (h : (p.header.dataSector + (c - 2) * p.header.sectors_per_cluster.toNat) * 512 + off ≤ 0x80000000) :
    (fat16_write_cluster_data p d c off buf len).2 = (diskstreamer_write d
      ⟨i32 (((p.header.dataSector + (c - 2) * p.header.sectors_per_cluster.toNat) * 512 + off : Nat) : Int), 0⟩
      buf len).2.1 := by
  have hs : fat16_cluster_to_sector p c =
      ((p.header.dataSector + (c - 2) * p.header.sectors_per_cluster.toNat : Nat) : Int) := by
    unfold fat16_cluster_to_sector
    rw [hp.ending, show (c : Int) - 2 = ((c - 2 : Nat) : Int) by omega, ← Nat.cast_mul, ← Nat.cast_add]
    exact i32_of_lt _ (by omega) (by omega)
  rw [seek_write d _ _ _ (fat16_write_cluster_data p d c off buf len) rfl, hs, Nat.cast_add, Nat.cast_mul]
  rfl

theorem write_entry_at (p : FatPrivate) (hp : Located p) (d : Disk) (slot : Nat) :
    (fat16_write_root_dir_entry p d slot).2 = (diskstreamer_write d
      ⟨i32 ((p.header.rootSector * 512 + slot * 32 : Nat) : Int), 0⟩
      (p.root_directory.item slot).byte 32).2.1 := by
  have hpos : p.root_directory.sector_pos * 512 + slot * 32 =
      ((p.header.rootSector * 512 + slot * 32 : Nat) : Int) := by
    rw [hp.sector_pos]
    omega
  rw [← hpos, seek_write d _ _ _ (fat16_write_root_dir_entry p d slot) rfl]

/-! ## Clusters that can be found -/

theorem i32_wrapped (x : Int) (h0 : -0x180000000 ≤ x) (h : x < -0x80000000) : i32 x = x + 0x100000000 := by
  unfold i32
  rw [Int.bmod_def]
  split <;> omega

theorem tdiv_small (x : Int) (n : Nat) (h : x < n) : (x.tdiv n).toNat = 0 := by
  by_cases hx : 0 ≤ x
  · rw [Int.tdiv_eq_zero_of_lt hx h]
    rfl
  · have := Int.tdiv_nonneg (show 0 ≤ -x by omega) (Int.natCast_nonneg n)
    rw [Int.neg_tdiv] at this
    omega

theorem tdiv_range (x : Int) (n : Nat) (h : -0x80000000 ≤ x ∧ x < 0x80000000) :
    -0x80000000 ≤ x.tdiv n ∧ x.tdiv n < 0x80000000 := by
  by_cases hx : 0 ≤ x
  · have h1 := Int.tdiv_nonneg hx (Int.natCast_nonneg n)
    have h2 := Int.tdiv_le_self n hx
    omega
  · have h1 := Int.tdiv_nonneg (show 0 ≤ -x by omega) (Int.natCast_nonneg n)
    have h2 := Int.tdiv_le_self n (show 0 ≤ -x by omega)
    rw [Int.neg_tdiv] at h1 h2
    omega

/-- With as many clusters as an `int` can count, the number of the last one is negative. -/
theorem fat16_clusters_eq (p : FatPrivate) : fat16_clusters p =
    if (fat16_count_of_clusters p).toNat = 0x7FFFFFFF then 0 else (fat16_count_of_clusters p).toNat := by
  have hrange : -0x80000000 ≤ fat16_count_of_clusters p ∧ fat16_count_of_clusters p < 0x80000000 := by
    unfold fat16_count_of_clusters
    apply tdiv_range
    unfold i32
    rw [Int.bmod_def]
    split <;> omega
  unfold fat16_clusters
  split
  · rename_i hmax
    rw [show fat16_count_of_clusters p = 0x7FFFFFFF by omega]
    rfl
  · rw [i32_of_lt _ (by omega) (by omega), Int.add_sub_cancel]

theorem count_of_clusters_toNat (p : FatPrivate) (hp : Located p) :
    (fat16_count_of_clusters p).toNat =
      if p.header.totalSectors < p.header.dataSector + p.header.sectors_per_cluster.toNat ∨
          0x80000000 + p.header.dataSector ≤ p.header.totalSectors then 0
      else p.header.clusters := by
  have hdata := dataSector_le p.header
  have hbig := p.header.sectors_big.toNat_lt
  have hsmall := p.header.number_of_sectors.toNat_lt
  have hspc := p.header.sectors_per_cluster.toNat_lt
  obtain ⟨T, hT⟩ : ∃ T, p.header.totalSectors = T := ⟨_, rfl⟩
  obtain ⟨A, hA⟩ : ∃ A, p.header.dataSector = A := ⟨_, rfl⟩
  have htotal : (if p.header.number_of_sectors ≠ 0 then (p.header.number_of_sectors.toNat : Int)
      else i32 p.header.sectors_big.toNat) = if T < 0x80000000 then (T : Int) else T - 0x100000000 := by
    rw [← hT, FatHeader.totalSectors]
    split
    · rw [if_pos (by omega)]
    · split
      · exact i32_of_lt _ (by omega) (by omega)
      · unfold i32
        rw [Int.bmod_def]
        split <;> omega
  have hlt : T < 2 ^ 32 := by
    rw [← hT, FatHeader.totalSectors]
    split <;> omega
  unfold fat16_count_of_clusters FatHeader.clusters
  rw [htotal, hp.ending]
  simp only [hT, hA]
  rw [hA] at hdata
  by_cases hno : T < A + p.header.sectors_per_cluster.toNat ∨ 0x80000000 + A ≤ T
  · rw [if_pos hno]
    refine tdiv_small _ _ ?_
    rw [i32_of_lt _ (by split <;> omega) (by split <;> omega)]
    split <;> omega
  · rw [if_neg hno]
    have hdiff : i32 ((if T < 0x80000000 then (T : Int) else T - 0x100000000) - A) = ((T - A : Nat) : Int) := by
      split
      · rw [i32_of_lt _ (by omega) (by omega)]
        omega
      · rw [i32_wrapped _ (by omega) (by omega)]
        omega
    rw [hdiff, Int.tdiv_eq_ediv_of_nonneg (by omega), ← Int.natCast_ediv]
    exact Int.toNat_natCast _

theorem count_of_clusters (p : FatPrivate) (hp : Located p) :
    fat16_clusters p = if p.header.NoCluster then 0 else p.header.clusters := by
  rw [fat16_clusters_eq, count_of_clusters_toNat p hp]
  by_cases hno : p.header.totalSectors < p.header.dataSector + p.header.sectors_per_cluster.toNat ∨
      0x80000000 + p.header.dataSector ≤ p.header.totalSectors
  · have hnone : p.header.NoCluster := hno.imp_right Or.inl
    rw [if_pos hno, if_neg (by decide), if_pos hnone]
  · rw [if_neg hno]
    refine if_congr ?_ rfl rfl
    unfold FatHeader.NoCluster
    rw [← or_assoc]
    exact ⟨Or.inr, fun h => h.resolve_left hno⟩

theorem range_of_canReturn (p : FatPrivate) (c : Nat) (h : CanReturn p c) :
    2 ≤ c ∧ c < fat16_clusters p + 2 := by
  obtain ⟨d, hd⟩ := h
  rcases find_free_cluster_first p d with ⟨c', heq, hfirst⟩ | ⟨heq, -⟩
  · rw [heq] at hd
    have hcc : c' = c := by omega
    subst hcc
    exact ⟨hfirst.ge, by have := hfirst.lt; omega⟩
  · rw [heq] at hd
    unfold ENOMEM at hd
    omega

/-- A disk of equal bytes. -/
def filled (b : UInt8) : Disk := ⟨fun _ _ => b, [], fun _ => 0⟩

theorem cellAt_filled (b : UInt8) (a : Nat) : cellAt (filled b).sector a = b := rfl

theorem canReturn_of_range (p : FatPrivate) (c : Nat) (h2 : 2 ≤ c)
    (hc : c < fat16_clusters p + 2)
    (hpos : p.header.reserved_sectors.toNat * 512 + 2 * c + 2 ≤ 0x80000000) : CanReturn p c := by
  obtain ⟨R, hR⟩ : ∃ R, R = p.header.reserved_sectors.toNat := ⟨_, rfl⟩
  obtain ⟨d, hd⟩ : ∃ d : Disk, d =
      { filled 1 with sector := spliced (filled 1).sector (R * 512 + 2 * c) 2 fun _ => 0 } := ⟨_, rfl⟩
  have hcell : ∀ a, cellAt d.sector a = if R * 512 + 2 * c ≤ a ∧ a < R * 512 + 2 * c + 2 then 0 else 1 := by
    intro a
    rw [hd, cellAt_spliced]
    rfl
  rw [← hR] at hpos
  have hfree : fat16_get_fat_entry p d c = 0 := by
    rw [get_fat_entry_at p d c (by rw [← hR]; exact hpos), ← hR, le16, hcell, hcell, if_pos (by omega),
      if_pos (by omega)]
    rfl
  have hused : ∀ m < c, ¬ fat16_get_fat_entry p d m = 0 := by
    intro m hm
    rw [get_fat_entry_at p d m (by rw [← hR]; omega), ← hR, le16, hcell, hcell, if_neg (by omega),
      if_neg (by omega)]
    decide
  refine ⟨d, ?_⟩
  rcases find_free_cluster_first p d with ⟨c', heq, hfirst⟩ | ⟨-, hnone⟩
  · rw [heq, first_unique hfirst ⟨h2, by omega, hfree, fun m _ hm => hused m hm⟩]
  · exact absurd hfree (hnone c h2 (by omega))

/-! ## Sound headers -/

theorem changed_spliced (d e : Disk) (pos n : Nat) (inp : Nat → UInt8) (a : Nat)
    (he : e.sector = spliced d.sector pos n inp) (h : Changed d e a) : pos ≤ a ∧ a < pos + n := by
  unfold Changed at h
  rw [he, cellAt_spliced] at h
  by_contra hout
  exact h (if_neg hout)

theorem entry_in_root (p : FatPrivate) (hp : Located p) (hroot : p.header.rootEnd ≤ 0x80000000) (slot : Nat)
    (hslot : slot < p.header.root_dir_entries.toNat) (d : Disk) (a : Nat)
    (h : Changed d (fat16_write_root_dir_entry p d slot).2 a) : p.header.InRoot a := by
  unfold FatHeader.rootEnd at hroot
  have hwrite : (fat16_write_root_dir_entry p d slot).2.sector =
      spliced d.sector (p.header.rootSector * 512 + slot * 32) 32 (p.root_directory.item slot).byte := by
    rw [write_entry_at p hp d slot, i32_of_lt _ (by omega) (by omega)]
    exact write_at d _ _ 32 (by linarith)
  obtain ⟨hge, hlt⟩ := changed_spliced d _ _ _ _ a hwrite h
  exact ⟨by linarith, by unfold FatHeader.rootEnd; linarith⟩

theorem set_changes (p : FatPrivate) (d : Disk) (c v a : Nat)
    (hpos : (p.header.reserved_sectors.toNat + p.header.sectors_per_fat.toNat) * 512 + 2 * c + 2 ≤ 0x80000000)
    (hc : c < 256 * p.header.sectors_per_fat.toNat)
    (h : Changed d (fat16_set_fat_entry p d c v).2 a) : p.header.InFat 0 a ∨ p.header.InFat 1 a := by
  unfold Changed at h
  rw [set_fat_entry_sector p d c v hpos, cellAt_spliced] at h
  split at h
  · rename_i hin
    exact Or.inr ⟨by linarith, by linarith⟩
  · rw [cellAt_spliced] at h
    split at h
    · rename_i hin
      exact Or.inl ⟨by linarith, by linarith⟩
    · exact absurd rfl h

theorem set_copies (p : FatPrivate) (d : Disk) (c v j : Nat)
    (hpos : (p.header.reserved_sectors.toNat + p.header.sectors_per_fat.toNat) * 512 + 2 * c + 2 ≤ 0x80000000)
    (hc : c < 256 * p.header.sectors_per_fat.toNat) (hv : v < 65536) (hj : j < 2) :
    le16 (fun i => cellAt (fat16_set_fat_entry p d c v).2.sector
      ((p.header.reserved_sectors.toNat + j * p.header.sectors_per_fat.toNat) * 512 + 2 * c + i)) = v := by
  rw [set_fat_entry_sector p d c v hpos]
  obtain rfl | rfl : j = 0 ∨ j = 1 := by omega
  · rw [Nat.zero_mul, Nat.add_zero]
    refine (le16_congr _ _ ?_ ?_).trans
      (le16_written d.sector (p.header.reserved_sectors.toNat * 512 + 2 * c) v hv)
    · rw [cellAt_spliced, if_neg (by omega)]
    · rw [cellAt_spliced, if_neg (by omega)]
  · rw [Nat.one_mul]
    exact le16_written _ _ v hv

theorem apart_of_sound (p : FatPrivate) (hp : Located p) (tail : Nat) (h : p.header.Sound tail) :
    RegionsApart p tail := by
  obtain ⟨hspc, hrest⟩ := h
  have hspc0 : p.header.sectors_per_cluster.toNat ≠ 0 := fun h0 => hspc (UInt8.toNat_inj.mp h0)
  have hsize : fat16_cluster_size p = p.header.sectors_per_cluster.toNat * 512 := rfl
  have hcount := count_of_clusters p hp
  have hdiv : p.header.sectors_per_cluster.toNat ≠ 0 ∧ fat16_cluster_size p ≠ 0 := ⟨hspc0, by omega⟩
  by_cases hno : p.header.NoCluster
  · -- no cluster is ever found
    rw [if_pos hno] at hrest hcount
    have hnone : ∀ c, ¬ CanReturn p c := by
      intro c hc
      have := range_of_canReturn p c hc
      omega
    refine ⟨hdiv, fun c hc => absurd hc (hnone c), fun c hc => absurd hc (hnone c),
      fun c hc => absurd hc (hnone c), fun c hc => absurd hc (hnone c), ?_⟩
    intro slot hslot d a ha
    exact entry_in_root p hp (hrest.resolve_left (by omega)) slot hslot d a ha
  · rw [if_neg hno] at hrest hcount
    obtain ⟨hcopies, hrde, hroom, hbelow, htail⟩ := hrest
    have htwo : p.header.fat_copies.toNat = 2 := by rw [hcopies]; rfl
    have hR := p.header.reserved_sectors.toNat_lt
    have hS := p.header.sectors_per_fat.toNat_lt
    have hrange : ∀ c, CanReturn p c → 2 ≤ c ∧ c < p.header.clusters + 2 := by
      intro c hc
      have := range_of_canReturn p c hc
      omega
    have hdata : p.header.rootEnd = p.header.dataSector * 512 := by
      unfold FatHeader.rootEnd FatHeader.dataSector
      omega
    refine ⟨hdiv, ?_, ?_, ?_, ?_, ?_⟩
    · intro c hc d e hagree
      have := hrange c hc
      rw [get_fat_entry_at p d c (by omega), get_fat_entry_at p e c (by omega)]
      have hcell : ∀ i < 2, cellAt d.sector (p.header.reserved_sectors.toNat * 512 + 2 * c + i) =
          cellAt e.sector (p.header.reserved_sectors.toNat * 512 + 2 * c + i) := by
        intro i hi
        exact hagree _ ⟨by omega, by omega⟩
      exact congrArg _ (le16_congr _ _ (hcell 0 (by decide)) (hcell 1 (by decide)))
    · intro c hc d v a ha
      have := hrange c hc
      rcases set_changes p d c v a (by omega) (by omega) ha with h0 | h1
      · exact ⟨0, by omega, h0⟩
      · exact ⟨1, by omega, h1⟩
    · intro c hc d v hv j hj
      have := hrange c hc
      exact set_copies p d c v j (by omega) (by omega) hv (by omega)
    · intro c hc d off buf len hin hoff a ha
      obtain ⟨h2, hlt⟩ := hrange c hc
      have hm := Nat.mul_le_mul_right p.header.sectors_per_cluster.toNat (show c - 2 + 1 ≤ p.header.clusters by omega)
      rw [Nat.succ_mul] at hm
      rw [hsize] at hin hoff
      have hwrite := write_cluster_at p hp d c off buf len h2 (by omega)
      obtain ⟨pos, hpos⟩ : ∃ pos, pos =
        (p.header.dataSector + (c - 2) * p.header.sectors_per_cluster.toNat) * 512 + off := ⟨_, rfl⟩
      rw [← hpos, i32_of_lt (pos : Int) (by omega) (by omega)] at hwrite
      have hsec := write_at d pos buf len (by omega)
      rw [← hwrite] at hsec
      obtain ⟨hge, hlt⟩ := changed_spliced d _ _ _ _ a hsec ha
      exact ⟨by omega, by omega⟩
    · intro slot hslot d a ha
      exact entry_in_root p hp (by omega) slot hslot d a ha

/-! ## Headers that are not sound -/

section Apart

variable {p : FatPrivate} {tail : Nat}

theorem copies_of_apart (h : RegionsApart p tail) (h2 : CanReturn p 2) : p.header.fat_copies.toNat = 2 := by
  have hR := p.header.reserved_sectors.toNat_lt
  have hS := p.header.sectors_per_fat.toNat_lt
  obtain ⟨R, hRdef⟩ : ∃ R, R = p.header.reserved_sectors.toNat * 512 := ⟨_, rfl⟩
  obtain ⟨S, hSdef⟩ : ∃ S, S = p.header.sectors_per_fat.toNat * 512 := ⟨_, rfl⟩
  have hRS : (p.header.reserved_sectors.toNat + p.header.sectors_per_fat.toNat) * 512 = R + S := by
    rw [hRdef, hSdef, Nat.add_mul]
  have hj : ∀ j, (p.header.reserved_sectors.toNat + j * p.header.sectors_per_fat.toNat) * 512 = R + j * S := by
    intro j
    rw [hRdef, hSdef, Nat.add_mul, Nat.mul_assoc]
  have hset := set_fat_entry_sector p (filled 0) 2 0xFFFF (by omega)
  rw [hRS, ← hRdef] at hset
  have hcell : ∀ a, cellAt (fat16_set_fat_entry p (filled 0) (2 : Nat) 0xFFFF).2.sector a =
      if R + S + 4 ≤ a ∧ a < R + S + 6 ∨ R + 4 ≤ a ∧ a < R + 6 then 0xFF else 0 := by
    intro a
    have hff : ∀ i, bytes16 0xFFFF i = 0xFF := by
      intro i
      unfold bytes16
      split <;> rfl
    rw [hset, cellAt_spliced, cellAt_spliced, cellAt_filled, hff, hff]
    by_cases h1 : R + S + 4 ≤ a ∧ a < R + S + 6
    · rw [if_pos h1, if_pos (Or.inl h1)]
    · by_cases h2 : R + 4 ≤ a ∧ a < R + 6
      · rw [if_neg h1, if_pos h2, if_pos (Or.inr h2)]
      · rw [if_neg h1, if_neg h2, if_neg fun h => h.elim h1 h2]
  have hin : ∀ a, Changed (filled 0) (fat16_set_fat_entry p (filled 0) (2 : Nat) 0xFFFF).2 a →
      ∃ j < p.header.fat_copies.toNat, R + j * S ≤ a ∧ a < R + (j + 1) * S := by
    intro a ha
    obtain ⟨j, hlt, hfat⟩ := h.written 2 h2 _ _ a ha
    unfold FatHeader.InFat at hfat
    rw [hj, hj] at hfat
    exact ⟨j, hlt, hfat⟩
  -- the write of the second copy is in a copy, so there are two, and they are not empty
  obtain ⟨j, hlt, hge, hle⟩ := hin (R + S + 4) (by
    unfold Changed
    rw [hcell, if_pos (by omega), cellAt_filled]
    decide)
  have hpos : 0 < S := by
    rcases Nat.eq_zero_or_pos S with h0 | h0
    · rw [h0, Nat.mul_zero] at hle
      omega
    · exact h0
  have hj1 : 1 ≤ j := by
    by_contra hj0
    rw [show j = 0 by omega] at hle
    omega
  -- a third copy would not be written
  by_contra hne
  have hthird := h.copies 2 h2 (filled 0) 0xFFFF (by decide) 2 (by omega)
  rw [hj] at hthird
  rw [le16, hcell, hcell, if_neg (by omega), if_neg (by omega)] at hthird
  exact absurd hthird (by decide)

theorem cluster_byte (hp : Located p) (h : RegionsApart p tail) (c off pos : Nat) (hc : CanReturn p c)
    (hoff : off < fat16_cluster_size p)
    (hpos : pos = (p.header.dataSector + (c - 2) * p.header.sectors_per_cluster.toNat) * 512 + off)
    (hlt : pos < 0x80000000) :
    p.header.rootEnd ≤ pos ∧ pos + tail * 512 < p.header.totalSectors * 512 := by
  refine h.cluster c hc (filled 0) off (fun _ => 1) 1 hoff hoff pos ?_
  have hwrite := write_cluster_at p hp (filled 0) c off (fun _ => 1) 1 (range_of_canReturn p c hc).1 (by omega)
  rw [← hpos, i32_of_lt (pos : Int) (by omega) (by omega)] at hwrite
  unfold Changed
  rw [hwrite, write_at _ pos _ 1 (by omega), cellAt_spliced, if_pos (by omega), cellAt_filled]
  decide

theorem cluster_wrapped (hp : Located p) (h : RegionsApart p tail) (c off : Nat) (hc : CanReturn p c)
    (hoff : off < fat16_cluster_size p)
    (hpos : (p.header.dataSector + (c - 2) * p.header.sectors_per_cluster.toNat) * 512 + off = 0x80000000) :
    0xFFC00000 < p.header.totalSectors := by
  have hwrite := write_cluster_at p hp (filled 0) c off (fun _ => 1) 1 (range_of_canReturn p c hc).1 (by omega)
  rw [hpos, show i32 ((0x80000000 : Nat) : Int) = -0x80000000 by decide] at hwrite
  have hcell := write_sector_start (filled 0) (-0x80000000) (fun _ => 1) 1 (by decide) (by decide) (by decide)
  rw [← hwrite, show u32 (-0x80000000 / 512) * 512 = 0xFFC00000 * 512 by decide] at hcell
  have := h.cluster c hc (filled 0) off (fun _ => 1) 1 hoff hoff (0xFFC00000 * 512) (by
    unfold Changed
    rw [hcell, cellAt_filled]
    decide)
  omega

theorem room_of_apart (h : RegionsApart p tail) (n : Nat) (hn : 0 < n)
    (hcan : ∀ c, 2 ≤ c → c < n + 2 → c ≤ 0x1000000 → CanReturn p c) :
    n + 2 ≤ 256 * p.header.sectors_per_fat.toNat := by
  have hR := p.header.reserved_sectors.toNat_lt
  have hS := p.header.sectors_per_fat.toNat_lt
  by_contra hlt
  obtain ⟨c, hc⟩ : ∃ c, c = max 2 (256 * p.header.sectors_per_fat.toNat) := ⟨_, rfl⟩
  obtain ⟨pos, hpos⟩ : ∃ pos, pos = p.header.reserved_sectors.toNat * 512 + 2 * c := ⟨_, rfl⟩
  have hout : (p.header.reserved_sectors.toNat + (0 + 1) * p.header.sectors_per_fat.toNat) * 512 ≤ pos := by
    omega
  have hc24 : c ≤ 0x1000000 := by omega
  have hbelow : p.header.reserved_sectors.toNat * 512 + 2 * c + 2 ≤ 0x80000000 := by linarith
  have heq := h.read c (hcan c (by omega) (by omega) hc24) (filled 0)
    { filled 0 with sector := spliced (filled 0).sector pos 2 fun _ => 1 } (by
      rintro a ⟨-, ha⟩
      rw [cellAt_spliced, if_neg (by omega)])
  rw [get_fat_entry_at p _ c hbelow, get_fat_entry_at p _ c hbelow, ← hpos, le16, le16, cellAt_filled,
    cellAt_filled, cell_inside _ pos 2 _ 0 (by decide), cell_inside _ pos 2 _ 1 (by decide)] at heq
  exact absurd heq (by decide)

theorem root_of_apart (hp : Located p) (h : RegionsApart p tail) :
    p.header.root_dir_entries.toNat = 0 ∨ p.header.rootEnd ≤ 0x80000000 := by
  have hroot := Nat.mul_le_mul_right 512 (rootSector_le p.header)
  have hE := p.header.root_dir_entries.toNat_lt
  obtain ⟨Y, hY⟩ : ∃ Y, Y = p.header.rootSector * 512 := ⟨_, rfl⟩
  have hY0 : Y % 512 = 0 := by
    rw [hY]
    exact Nat.mul_mod_left _ _
  rw [← hY] at hroot
  unfold FatHeader.rootEnd
  rw [← hY]
  by_contra hcon
  -- the first entry at or above 2 GiB starts a sector
  obtain ⟨slot, hslot, X, hX, hge, hmod⟩ : ∃ slot < p.header.root_dir_entries.toNat, ∃ X, X = Y + slot * 32 ∧
      0x80000000 ≤ X ∧ X % 512 = 0 := by
    by_cases hbig : 0x80000000 ≤ Y
    · exact ⟨0, by omega, Y, by omega, hbig, hY0⟩
    · exact ⟨(0x80000000 - Y) / 32, by omega, 0x80000000, by omega, by omega, by omega⟩
  obtain ⟨b, hb⟩ : ∃ b, b = (p.root_directory.item slot).byte 0 := ⟨_, rfl⟩
  have hi : i32 (X : Int) % 512 = 0 ∧ i32 (X : Int) ≤ X - 0x100000000 ∧ -0x80000000 ≤ i32 (X : Int) := by
    unfold i32
    rw [Int.bmod_def]
    split <;> exact ⟨by omega, by omega, by omega⟩
  have hcell := write_sector_start (filled (b + 1)) (i32 (X : Int)) (p.root_directory.item slot).byte 32
    hi.1 (by decide) (by decide)
  have hwrite := write_entry_at p hp (filled (b + 1)) slot
  rw [← hY, ← hX] at hwrite
  rw [← hwrite, ← hb] at hcell
  have hne : b ≠ b + 1 := by simp
  obtain ⟨h1, h2⟩ := h.entry slot hslot (filled (b + 1)) (u32 (i32 (X : Int) / 512) * 512) (by
    unfold Changed
    rw [hcell, cellAt_filled]
    exact hne)
  unfold FatHeader.rootEnd at h2
  rw [← hY] at h1 h2
  have hq : -0x400000 ≤ i32 (X : Int) / 512 ∧ i32 (X : Int) / 512 * 512 = i32 (X : Int) := by omega
  generalize i32 (X : Int) / 512 = q at *
  unfold u32 at h1 h2
  rcases Int.lt_or_le q 0 with hneg | hpos
  · rw [show q % 2 ^ 32 = q + 2 ^ 32 by omega] at h2
    omega
  · rw [show q % 2 ^ 32 = q by omega] at h1
    omega

theorem cluster_at_limit (h : FatHeader) (hspc : 0 < h.sectors_per_cluster.toNat)
    (hend : 0x400000 - h.dataSector < h.clusters * h.sectors_per_cluster.toNat) :
    ∃ q r, q < h.clusters ∧ q ≤ 0x400000 ∧ r < h.sectors_per_cluster.toNat ∧
      q * h.sectors_per_cluster.toNat + r = 0x400000 - h.dataSector := by
  refine ⟨(0x400000 - h.dataSector) / h.sectors_per_cluster.toNat,
    (0x400000 - h.dataSector) % h.sectors_per_cluster.toNat, ?_, ?_, Nat.mod_lt _ hspc, Nat.div_add_mod' _ _⟩
  · exact Nat.div_lt_of_lt_mul (by rwa [Nat.mul_comm])
  · exact (Nat.div_le_self _ _).trans (Nat.sub_le _ _)

theorem sound_of_apart (hp : Located p) (h : RegionsApart p tail) : p.header.Sound tail := by
  have hspc : p.header.sectors_per_cluster ≠ 0 := fun h0 => h.divisors.1 (by rw [h0]; rfl)
  have hspc0 := h.divisors.1
  have hR := p.header.reserved_sectors.toNat_lt
  have hcount := count_of_clusters p hp
  refine ⟨hspc, ?_⟩
  by_cases hno : p.header.NoCluster
  · rw [if_pos hno]
    exact root_of_apart hp h
  rw [if_neg hno] at hcount ⊢
  have hone : 0 < p.header.clusters := by
    unfold FatHeader.NoCluster at hno
    exact Nat.div_pos (by omega) (by omega)
  have hcan : ∀ c, 2 ≤ c → c < p.header.clusters + 2 → c ≤ 0x1000000 → CanReturn p c := by
    intro c h2 hlt hle
    exact canReturn_of_range p c h2 (by omega) (by omega)
  have htwo := copies_of_apart h (hcan 2 (by omega) (by omega) (by omega))
  have hsize : fat16_cluster_size p = p.header.sectors_per_cluster.toNat * 512 := rfl
  -- with two FAT copies the clusters start below 2 GiB
  have hdata : p.header.dataSector < 0x40000 := by
    have := p.header.sectors_per_fat.toNat_lt
    have := p.header.root_dir_entries.toNat_lt
    unfold FatHeader.dataSector FatHeader.rootSector
    rw [htwo]
    omega
  have hbelow : p.header.dataSector + p.header.clusters * p.header.sectors_per_cluster.toNat ≤ 0x400000 := by
    by_contra hlt
    obtain ⟨q, r, hq, hq22, hr, hqr⟩ := cluster_at_limit p.header (Nat.pos_of_ne_zero hspc0) (by omega)
    have hwrap := cluster_wrapped hp h (q + 2) (r * 512) (hcan _ (by omega) (by omega) (by omega)) (by omega)
      (by rw [Nat.add_sub_cancel]; omega)
    unfold FatHeader.NoCluster at hno
    omega
  refine ⟨UInt8.toNat_inj.mp htwo, ?_, room_of_apart h _ hone hcan, hbelow, ?_⟩
  · -- the first byte of the first cluster
    obtain ⟨hroot, -⟩ := cluster_byte hp h 2 0 _ (hcan 2 (by omega) (by omega) (by omega)) (by omega) rfl (by omega)
    unfold FatHeader.rootEnd FatHeader.dataSector at hroot
    omega
  · -- the last byte of the last cluster
    have hm : (p.header.clusters - 1) * p.header.sectors_per_cluster.toNat + p.header.sectors_per_cluster.toNat =
        p.header.clusters * p.header.sectors_per_cluster.toNat := by
      rw [← Nat.succ_mul, Nat.succ_eq_add_one, Nat.sub_add_cancel hone]
    have hle : p.header.clusters ≤ p.header.clusters * p.header.sectors_per_cluster.toNat :=
      Nat.le_mul_of_pos_right _ (by omega)
    obtain ⟨-, hlast⟩ := cluster_byte hp h (p.header.clusters + 1) (p.header.sectors_per_cluster.toNat * 512 - 1) _
      (hcan _ (by omega) (by omega) (by omega)) (by omega) rfl (by
        rw [show p.header.clusters + 1 - 2 = p.header.clusters - 1 by omega]
        omega)
    rw [show p.header.clusters + 1 - 2 = p.header.clusters - 1 by omega] at hlast
    omega

end Apart

/-- An accepted header keeps the regions apart if and only if it is sound. -/
theorem regions_apart_iff (fuel : Nat) (d : Disk) (alloc : Bool) (mem : Nat → UInt8) (v : Volume)
    (h : fat16_resolve fuel d alloc mem = some (.ok v)) (tail : Nat) :
    RegionsApart v.priv tail ↔ v.priv.header.Sound tail := by
  have hp := fat16_resolve_located fuel d alloc mem v h
  exact ⟨sound_of_apart hp, apart_of_sound v.priv hp tail⟩

theorem sample_regions : RegionsApart sample.priv 0 :=
  (regions_apart_iff 3 sampleDisk true (fun _ => 0) sample sample_mounts 0).mpr (by decide +kernel)

/-- The small disk with one more root entry, which is in a sector of its own. -/
def raggedDisk : Disk :=
  { sampleDisk with sector := fun i j => if i = 0 ∧ (j : Nat) = 17 then 17 else sampleDisk.sector i j }

/-- The first cluster holds the last root entry. -/
theorem ragged_overlaps : ∃ v, fat16_resolve 3 raggedDisk true (fun _ => 0) = some (.ok v) ∧
    fat16_find_free_cluster v.priv (filled 0) = 2 ∧ v.priv.header.InRoot 2048 ∧
    Changed (filled 0) (fat16_write_cluster_data v.priv (filled 0) 2 0 (fun _ => 1) 1).2 2048 ∧
    ∀ tail, ¬ RegionsApart v.priv tail := by
  have h : mountsWith (fun v => fat16_find_free_cluster v.priv (filled 0) = 2 ∧ v.priv.header.InRoot 2048 ∧
      Changed (filled 0) (fat16_write_cluster_data v.priv (filled 0) 2 0 (fun _ => 1) 1).2 2048 ∧
      fat16_cluster_size v.priv = 512) (fat16_resolve 3 raggedDisk true fun _ => 0) = true := by decide +kernel
  obtain ⟨v, hv, hfacts⟩ := mountsWith_some _ h
  obtain ⟨hfind, hroot, hchanged, hsize⟩ := of_decide_eq_true hfacts
  refine ⟨v, hv, hfind, hroot, hchanged, ?_⟩
  intro tail hapart
  have hafter := (hapart.cluster 2 ⟨filled 0, hfind⟩ (filled 0) 0 (fun _ => 1) 1 (by omega) (by omega) 2048
    hchanged).1
  exact absurd hroot.2 (by omega)

end PeachOS.Fat
