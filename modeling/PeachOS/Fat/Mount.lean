import PeachOS.Fat.Table

/-!
# Mounting

`fat16_resolve` reads the layout from the boot sector and loads the root directory.
-/

open PeachOS.Lib PeachOS.Streamer

namespace PeachOS

/-- The layout that a mounted header describes. -/
def layoutOf (p : FatPrivate) : Layout where
  reserved := p.header.reserved_sectors.toNat
  spf := p.header.sectors_per_fat.toNat
  rde := p.header.root_dir_entries.toNat
  spc := p.header.sectors_per_cluster.toNat
  clusters := fat16_clusters p

namespace Fat

/-- What `fat16_get_root_directory` loads, with `total` still to be said. -/
theorem fat16_get_root_directory_cases (fuel : Nat) (d : Disk) (header : FatHeader) (alloc : Bool)
    (mem : Nat → UInt8) (dir : FatDirectory)
    (h : fat16_get_root_directory fuel d header alloc mem = some (.ok dir)) :
    ∃ pos size : Int,
      pos = header.fat_copies.toNat * header.sectors_per_fat.toNat + header.reserved_sectors.toNat ∧
      size = header.root_dir_entries.toNat * 32 ∧
      fat16_get_total_items_for_directory fuel d pos = some dir.total ∧
      dir.sector_pos = pos ∧ dir.ending_sector_pos = pos + size.tdiv 512 ∧
      dir.item = fun i => FatDirectoryItem.ofBytes fun k =>
        (diskstreamer_read d ⟨i32 (pos * 512), 0⟩ mem size).2.1 (32 * i + k) := by
  unfold fat16_get_root_directory at h
  dsimp only at h
  refine ⟨_, _, rfl, rfl, ?_⟩
  generalize hpos : (header.fat_copies.toNat * header.sectors_per_fat.toNat +
    header.reserved_sectors.toNat : Int) = pos at *
  generalize hsize : (header.root_dir_entries.toNat * 32 : Int) = size at *
  split at h
  · cases h
  · rename_i total htotal
    cases alloc with
    | false => cases h
    | true =>
      have hseek : diskstreamer_seek diskstreamer_new (i32 (pos * 512)) = (0, ⟨i32 (pos * 512), 0⟩) := rfl
      rw [hseek] at h
      dsimp only at h
      generalize diskstreamer_read d ⟨i32 (pos * 512), 0⟩ mem size = r at *
      simp only [Bool.not_true, Bool.false_eq_true, if_false, ne_eq, not_true_eq_false] at h
      split at h
      · cases h
      · cases h
        exact ⟨htotal, rfl, rfl, rfl⟩

theorem fat16_resolve_cases (fuel : Nat) (d : Disk) (alloc : Bool) (mem : Nat → UInt8) (v : Volume)
    (h : fat16_resolve fuel d alloc mem = some (.ok v)) :
    v.disk = d ∧
      fat16_get_root_directory fuel d v.priv.header alloc mem = some (.ok v.priv.root_directory) := by
  unfold fat16_resolve at h
  generalize diskstreamer_read d diskstreamer_new (fun _ => 0) 62 = r at h
  obtain ⟨res, bytes, stream⟩ := r
  dsimp only at h
  split at h
  · cases h
  split at h
  · cases h
  split at h
  · cases h
  · cases h
  · rename_i directory heq
    cases h
    exact ⟨rfl, heq⟩

theorem fat16_resolve_ok (fuel : Nat) (d : Disk) (alloc : Bool) (mem : Nat → UInt8) (v : Volume)
    (h : fat16_resolve fuel d alloc mem = some (.ok v)) (hc : v.priv.header.fat_copies = 2)
    (hL : (layoutOf v.priv).Wf) : v.Ok (layoutOf v.priv) := by
  obtain ⟨hd, hroot⟩ := fat16_resolve_cases fuel d alloc mem v h
  obtain ⟨pos, size, hpos, hsize, -, hsp, hend, hitem⟩ :=
    fat16_get_root_directory_cases fuel d _ alloc mem _ hroot
  set L := layoutOf v.priv with hLdef
  have hpos' : pos = ((L.reserved + 2 * L.spf : Nat) : Int) := by
    rw [hpos, hc, hLdef]
    simp only [layoutOf]
    rw [show (2 : UInt8).toNat = 2 from rfl]
    omega
  have hsize' : size = ((L.rde * 32 : Nat) : Int) := by
    rw [hsize, hLdef]
    simp only [layoutOf]
    omega
  have hreg := regions_below hL
  refine ⟨⟨hc, rfl, rfl, rfl, rfl, by rw [hsp, hpos'], ?_, rfl⟩, ?_⟩
  · rw [hend, hpos', hsize', Int.tdiv_eq_ediv_of_nonneg (by omega)]
    omega
  · intro i hi
    have hroot : i32 (pos * 512) = ((L.rootPos : Nat) : Int) := by
      unfold Layout.dataPos Layout.rootPos at *
      rw [hpos', i32_of_lt _ (by omega) (by omega)]
      omega
    rw [hitem, hroot, hsize', diskstreamer_read_spec d L.rootPos mem (L.rde * 32)
      (by unfold Layout.dataPos at hreg; omega) (Or.inl (by unfold Layout.rootPos; omega))]
    simp only [Volume.view, hd, Layout.view, if_pos hi]
    apply ofBytes_congr
    intro k hk
    rw [readAt, if_pos (by omega), Nat.add_assoc]

end Fat

/-! ## A small volume -/

/-- The bytes of a boot sector that the driver reads: one reserved sector, two FATs of one sector each, 16 root
entries and 4 clusters of one sector. -/
def sampleBoot (j : Nat) : UInt8 :=
  if j = 13 then 1 else if j = 14 then 1 else if j = 16 then 2 else if j = 17 then 16
  else if j = 19 then 8 else if j = 22 then 1 else if j = 38 then 0x29 else 0

def sampleFat (c : Nat) : Nat := if c = 0 then 0xFFF8 else if c ≤ 2 then 0xFFFF else 0

def sampleEntry : FatDirectoryItem :=
  { fat16_new_entry (cstr [65]) with low_16_bits_first_cluster := 2, filesize := 3 }

/-- The disk holds one file, `A`, of three bytes in cluster 2. -/
def sampleDisk : Disk where
  sector i j :=
    if i = 0 then sampleBoot j
    else if i = 1 ∨ i = 2 then bytes16 (sampleFat (j / 2)) (j % 2)
    else if i = 3 then (if (j : Nat) < 32 then sampleEntry.byte j else 0)
    else 0
  writes := []
  stack := fun _ => 0

/-- The volume that mounting the small disk gives. -/
def sample : Volume :=
  match fat16_resolve 3 sampleDisk true (fun _ => 0) with
  | some (.ok v) => v
  | _ => ⟨sampleDisk, FatHeader.ofBytes (fun _ => 0), fun _ => .zero, 0, 0, 0⟩

def sampleLayout : Layout := layoutOf sample.priv

namespace Fat

/-- A mount that succeeds, with a property of the volume, by evaluating both. -/
def mountsWith (P : Volume → Bool) : Option (Except Int Volume) → Bool
  | some (.ok v) => P v
  | _ => false

theorem mountsWith_some {P : Volume → Bool} (r : Option (Except Int Volume)) (h : mountsWith P r = true) :
    ∃ v, r = some (.ok v) ∧ P v = true := by
  rcases r with _ | _ | v
  · cases h
  · cases h
  · exact ⟨v, rfl, h⟩

theorem sample_mounts : fat16_resolve 3 sampleDisk true (fun _ => 0) = some (.ok sample) := by
  have h : mountsWith (fun _ => true) (fat16_resolve 3 sampleDisk true fun _ => 0) = true := by decide +kernel
  obtain ⟨v, hv, -⟩ := mountsWith_some _ h
  unfold sample
  rw [hv]

theorem sampleLayout_eq : sampleLayout = ⟨1, 1, 16, 1, 4⟩ := by decide +kernel

theorem sample_size : fat16_cluster_size sample.priv = 512 := by decide +kernel

theorem sample_copies : sample.priv.header.fat_copies = 2 := by decide +kernel

theorem sample_wf : sampleLayout.Wf := by
  rw [sampleLayout_eq]
  exact ⟨by decide, by decide, by decide, by decide⟩

theorem sample_small : sampleLayout.Small := by
  rw [sampleLayout_eq]
  decide

theorem sample_ok : sample.Ok sampleLayout :=
  fat16_resolve_ok 3 sampleDisk true (fun _ => 0) sample sample_mounts sample_copies sample_wf

end Fat

end PeachOS
