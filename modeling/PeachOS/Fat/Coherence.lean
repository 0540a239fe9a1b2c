import PeachOS.Fat.Sessions
import PeachOS.Fat.System

/-!
# What is on disk twice

The FAT has a second copy, and the root directory is cached in memory. Both stay equal to the original
under every interleaving of calls, whatever the chains look like: stale descriptors, cycles and shared
clusters included. All that is needed is that every cluster number that can be met is in range.
-/

open PeachOS.Lib PeachOS.Streamer

namespace PeachOS

/-- The first and the second FAT copy have the same bytes. -/
def CopiesEqual (L : Layout) (v : Volume) : Prop :=
  ∀ k < L.spf * 512, cellAt v.disk.sector (L.fatPos + k) = cellAt v.disk.sector (L.mirrorPos + k)

/-- Every in-memory entry is the 32 bytes at its place on disk. -/
def ItemsOnDisk (L : Layout) (v : Volume) : Prop :=
  ∀ i < L.rde, ∀ k < 32,
    (v.priv.root_directory.item i).byte k = cellAt v.disk.sector (L.rootPos + 32 * i + k)

/-- A FAT value that the driver can meet: it stops a walk, or is a cluster. -/
def GoodLink (L : Layout) (x : Nat) : Prop := Fat.Stop x ∨ L.InRange x

namespace Fat

variable {L : Layout} {p : FatPrivate} {v : Volume}

theorem synced_iff_bytes : Synced L v ↔ ItemsOnDisk L v := by
  constructor
  · intro h i hi k hk
    rw [h i hi]
    simp only [Volume.view, Layout.view, if_pos hi]
    exact byte_ofBytes (fun k => cellAt v.disk.sector (L.rootPos + 32 * i + k)) k hk
  · intro h i hi
    simp only [Volume.view, Layout.view, if_pos hi]
    rw [← ofBytes_byte (v.priv.root_directory.item i)]
    exact ofBytes_congr _ _ (fun k hk => h i hi k hk)

theorem copies_iff_view : CopiesEqual L v ↔ (v.view L).mirror = (v.view L).fat := by
  constructor
  · intro h
    funext c
    simp only [Volume.view, Layout.view]
    by_cases hc : c < L.entries
    · unfold Layout.entries at hc
      rw [if_pos (show c < L.entries from hc), if_pos (show c < L.entries from hc)]
      apply le16_congr
      · have := h (2 * c + 0) (by omega)
        rw [← Nat.add_assoc, ← Nat.add_assoc] at this
        exact this.symm
      · have := h (2 * c + 1) (by omega)
        rw [← Nat.add_assoc, ← Nat.add_assoc] at this
        exact this.symm
    · rw [if_neg hc, if_neg hc]
  · intro h k hk
    -- The two bytes of an entry are determined by its value.
    have hc : k / 2 < L.entries := by
      unfold Layout.entries
      omega
    have hval := congrFun h (k / 2)
    simp only [Volume.view, Layout.view, if_pos hc] at hval
    have hb := fun i hi => bytes16_le16 (fun i => cellAt v.disk.sector (L.fatPos + 2 * (k / 2) + i)) i hi
    have hb' := fun i hi => bytes16_le16 (fun i => cellAt v.disk.sector (L.mirrorPos + 2 * (k / 2) + i)) i hi
    have hk2 : k = 2 * (k / 2) + k % 2 := by omega
    rw [hk2, ← Nat.add_assoc, ← Nat.add_assoc, ← hb (k % 2) (by omega), ← hb' (k % 2) (by omega), hval]

/-! ## The table -/

/-- Both copies agree, and every value is one that the driver can meet. -/
structure Coherent (L : Layout) (σ : View) : Prop where
  mirror : σ.mirror = σ.fat
  links : ∀ c, GoodLink L (σ.fat c)

theorem coherent_setBoth (σ : View) (h : Coherent L σ) (c x : Nat) (hx : GoodLink L x) :
    Coherent L (σ.setBoth c x) := by
  refine ⟨?_, fun y => ?_⟩
  · funext y
    rw [View.setBoth_fat, View.setBoth_mirror, h.mirror]
  · rw [View.setBoth_fat]
    split
    · exact hx
    · exact h.links y

theorem goodLink_zero : GoodLink L 0 := Or.inl (Or.inl (by omega))

theorem goodLink_eoc : GoodLink L fat16Eoc := Or.inl (Or.inr (by decide))

/-- A link to a cluster past 2^16 is cut to 16 bits. What is left is no cluster or one in range. -/
theorem goodLink_mod (n : Nat) (hn : L.InRange n) : GoodLink L (n % 65536) := by
  by_cases h2 : n % 65536 < 2
  · exact Or.inl (Or.inl h2)
  · exact Or.inr ⟨by omega, by have := hn.2; have := Nat.mod_le n 65536; omega⟩

/-! ## Freeing -/

theorem coherent_free_loop (hm : Mounted p L) (hL : L.Wf) (fuel : Nat) (d : Disk) (c : Nat)
    (hc : L.InRange c) (h : Coherent L (L.view d.sector)) :
    Coherent L (L.view (fat16_free_cluster_chain_loop p fuel d c).sector) ∧
      (L.view (fat16_free_cluster_chain_loop p fuel d c).sector).dir = (L.view d.sector).dir := by
  induction fuel generalizing d c with
  | zero => exact ⟨h, rfl⟩
  | succ fuel ih =>
    by_cases hlt : c < 0xFFF8
    · obtain ⟨e, heq, hview, -⟩ := fat16_set_fat_entry_spec (fun _ => True) hm hL d c 0
        (inRange_entries hL c hc) (by omega) trivial trivial trivial
      have he : Coherent L (L.view e.sector) := by
        rw [hview]
        exact coherent_setBoth _ h c 0 goodLink_zero
      have hdir : (L.view e.sector).dir = (L.view d.sector).dir := by rw [hview, View.setBoth_dir]
      rw [fat16_free_cluster_chain_loop_succ hm hL fuel d c hc hlt, heq]
      by_cases hs : Stop ((L.view d.sector).fat c)
      · rw [if_pos hs]
        exact ⟨he, hdir⟩
      · rw [if_neg hs]
        obtain ⟨h1, h2⟩ := ih e _ ((h.links c).resolve_left hs) he
        exact ⟨h1, h2.trans hdir⟩
    · -- A cluster number in the end-of-chain range is not followed.
      have hstop : ¬ ((c : Int) ≥ 2 ∧ (c : Int) < fat16EocMin) := by
        unfold fat16EocMin
        omega
      rw [fat16_free_cluster_chain_loop, if_neg hstop]
      exact ⟨h, rfl⟩

/-! ## The calls -/

/-- The first cluster of an entry or a descriptor. -/
def GoodFirst (L : Layout) (it : FatDirectoryItem) : Prop :=
  fat16_get_first_cluster it = 0 ∨ L.InRange (fat16_get_first_cluster it)

structure VolumeCoherent (L : Layout) (v : Volume) : Prop where
  ok : v.Ok L
  table : Coherent L (v.view L)
  firsts : ∀ i < L.rde, ((v.view L).dir i).attr ≠ 0x0F → GoodFirst L ((v.view L).dir i)

theorem coherent_disk (h : VolumeCoherent L v) (e : Disk) (ht : Coherent L (L.view e.sector))
    (hdir : (L.view e.sector).dir = (v.view L).dir) : VolumeCoherent L { v with disk := e } := by
  refine ⟨ok_of_dir h.ok e hdir, ht, fun j hj hattr => ?_⟩
  have hj' : (Volume.view { v with disk := e } L).dir j = (v.view L).dir j := congrFun hdir j
  rw [hj'] at hattr ⊢
  exact h.firsts j hj hattr

theorem coherent_store (hL : L.Wf) (h : VolumeCoherent L v) (i : Nat) (hi : i < L.rde)
    (it : FatDirectoryItem) (hit : GoodFirst L it) : VolumeCoherent L (fat16_store_entry v i it) := by
  obtain ⟨hok', hview, -⟩ := fat16_store_entry_spec h.ok hL i hi it
  refine ⟨hok', ?_, fun j hj hattr => ?_⟩
  · rw [hview]
    exact ⟨h.table.mirror, h.table.links⟩
  · rw [hview, View.setDir_dir] at hattr ⊢
    by_cases hji : j = i
    · rw [if_pos hji]
      exact hit
    · rw [if_neg hji] at hattr ⊢
      exact h.firsts j hj hattr

theorem coherent_recycle (hL : L.Wf) (h : VolumeCoherent L v) (i : Nat) (hi : i < L.rde)
    (hattr : (v.priv.root_directory.item i).attr ≠ 0x0F) (it : FatDirectoryItem) (hit : GoodFirst L it) :
    VolumeCoherent L (recycle v i it) := by
  have hfirst := h.firsts i hi (by rw [← h.ok.synced i hi]; exact hattr)
  rw [← h.ok.synced i hi] at hfirst
  refine coherent_store hL ?_ i hi it hit
  rcases hfirst with h0 | hr
  · rw [if_neg (by omega)]
    exact h
  · rw [if_pos hr.1]
    unfold fat16_free_cluster_chain
    rw [i32_inRange hL _ hr]
    obtain ⟨ht, hdir⟩ := coherent_free_loop h.ok.mounted hL 65536 v.disk _ hr h.table
    exact coherent_disk h _ ht hdir

theorem coherent_create (hL : L.Wf) (h : VolumeCoherent L v) (i : Nat) (hi : i < L.rde)
    (name : Nat → UInt8) : VolumeCoherent L (fat16_open_create v i name) := by
  have hst := coherent_store hL h i hi (fat16_new_entry name) (Or.inl (blank_new name).first)
  have hm := hst.ok.mounted
  unfold fat16_open_create
  dsimp only
  split
  · exact ⟨⟨⟨hm.copies, hm.reserved, hm.spf, hm.rde, hm.spc, hm.sector_pos, hm.ending, hm.clusters⟩,
      hst.ok.synced⟩, hst.table, hst.firsts⟩
  · exact hst

theorem writeInv_coherent (L : Layout) (dir : Nat → FatDirectoryItem) (pos total : Nat)
    (src : Nat → UInt8) :
    WriteInv L pos total src (fun _ => True)
      (fun _ c _ σ => L.InRange c ∧ Coherent L σ ∧ σ.dir = dir) := by
  refine ⟨fun _ _ _ _ h => h.1, fun _ _ _ _ _ => trivial, ?_, ?_, ?_⟩
  · rintro k c w σ ⟨hc, hσ, hd⟩ hs
    exact ⟨(hσ.links c).resolve_left hs, hσ, hd⟩
  · rintro k c w σ n ⟨hc, hσ, hd⟩ - hn -
    have h1 := coherent_setBoth σ hσ n fat16Eoc goodLink_eoc
    exact ⟨trivial, trivial, trivial, hn, coherent_setBoth _ h1 c _ (goodLink_mod n hn), hd⟩
  · rintro k c w σ off n ⟨hc, hσ, hd⟩ - - -
    exact ⟨fun _ _ => trivial, hc, ⟨hσ.mirror, hσ.links⟩, hd⟩

/-- A descriptor whose slot and first cluster are in range. -/
structure DescGood (L : Layout) (desc : FatFileDescriptor) : Prop where
  slot : ∃ slot : Nat, desc.root_dir_slot = slot ∧ slot < L.rde
  first : GoodFirst L desc.item.item

theorem coherent_write (hL : L.Wf) (h : VolumeCoherent L v) (desc : FatFileDescriptor)
    (hd : DescGood L desc) (size nmemb : Nat) (buf : Nat → UInt8) :
    VolumeCoherent L (fat16_write v desc size nmemb buf).2.1 ∧
      DescGood L (fat16_write v desc size nmemb buf).2.2 := by
  obtain ⟨slot, hslot, hlt⟩ := hd.slot
  obtain ⟨r, f, e, heq, -, hres⟩ := fat16_write_internal_spec h.ok.mounted hL
    (fun _ _ c _ σ => L.InRange c ∧ Coherent L σ ∧ σ.dir = (v.view L).dir)
    (fat16_get_first_cluster desc.item.item)
    (fun _ _ => writeInv_coherent L (v.view L).dir desc.pos (u32 (size * nmemb)) buf) v.disk trivial
    (fun hne => ⟨hd.first.resolve_left hne, h.table, rfl⟩)
    (fun _ n hn _ => ⟨trivial, hn, coherent_setBoth _ h.table n fat16Eoc goodLink_eoc, rfl⟩)
  have hdisk : VolumeCoherent L { v with disk := e } := by
    rcases hres with ⟨-, -, rfl⟩ | ⟨-, -, k, c, w, ⟨-, ht, hdir⟩, -⟩
    · exact h
    · exact coherent_disk h e ht hdir
  by_cases hneg : r < 0
  · have hw : fat16_write v desc size nmemb buf = (r, { v with disk := e }, desc) := by
      simp only [fat16_write, heq, if_pos hneg]
    rw [hw]
    exact ⟨hdisk, hd⟩
  · have hf : L.InRange f ∧
        (fat16_get_first_cluster desc.item.item ≠ 0 → f = fat16_get_first_cluster desc.item.item) := by
      rcases hres with ⟨rfl, -, -⟩ | ⟨hf, hfirst, -⟩
      · exact absurd (by decide) hneg
      · exact ⟨hf, hfirst⟩
    have hcl := clusters_lt hL
    have hfirst := grown_first desc.item.item f desc.pos r.toNat (by have := hf.1.1; omega)
      (by have := hf.1.2; omega) hf.2
    have hgood : GoodFirst L (fat16_grown_item desc.item.item f desc.pos r.toNat) := by
      refine Or.inr ?_
      rw [hfirst]
      exact hf.1
    simp only [fat16_write, heq, if_neg hneg, hslot, if_pos (show (slot : Int) ≥ 0 by omega),
      Int.toNat_natCast]
    exact ⟨coherent_store hL hdisk slot hlt _ hgood, ⟨slot, rfl, hlt⟩, hgood⟩

/-! ## Runs -/

theorem coherent_open (hL : L.Wf) (h : VolumeCoherent L v) (name : Nat → UInt8)
    (kzalloc : FatMemory) (v' : Volume) (res : Except Int FatFileDescriptor)
    (heq : fat16_open_write v name kzalloc = (v', res)) :
    VolumeCoherent L v' ∧ ∀ desc, res = .ok desc → DescGood L desc := by
  have hdesc : ∀ (w : Volume) (i : Nat) (desc : FatFileDescriptor), i < L.rde →
      GoodFirst L (w.priv.root_directory.item i) → fat16_open_descriptor w i kzalloc = .ok desc →
      DescGood L desc := by
    intro w i desc hi hgood hd
    have hop := fat16_open_descriptor_spec i kzalloc desc hd
    exact ⟨⟨i, hop.slot, hi⟩, by rw [hop.item]; exact hgood⟩
  rcases fat16_find_root_dir_slot_by_name_spec h.ok.mounted name with
    ⟨i, hfind, hi, hlive, -⟩ | ⟨hfind, -⟩
  · rw [fat16_open_write_found name kzalloc i hfind, Prod.mk.injEq] at heq
    obtain ⟨rfl, rfl⟩ := heq
    have hblank : GoodFirst L (emptied (v.priv.root_directory.item i)) := Or.inl (blank_emptied _).first
    refine ⟨coherent_recycle hL h i hi hlive.2.2 _ hblank, fun desc hd => hdesc _ i desc hi ?_ hd⟩
    rw [show (recycle v i (emptied (v.priv.root_directory.item i))).priv.root_directory.item i =
      emptied (v.priv.root_directory.item i) from if_pos rfl]
    exact hblank
  · rcases fat16_find_free_root_dir_slot_spec h.ok.mounted with ⟨i, hfree, hi, -⟩ | ⟨hfree, -⟩
    · rw [fat16_open_write_new name kzalloc i hfind hfree, Prod.mk.injEq] at heq
      obtain ⟨rfl, rfl⟩ := heq
      have hco := coherent_create hL h i hi name
      refine ⟨hco, fun desc hd => hdesc _ i desc hi ?_ hd⟩
      rw [show (fat16_open_create v i name).priv.root_directory.item i = fat16_new_entry name by
        unfold fat16_open_create; dsimp only; split <;> exact if_pos rfl]
      exact Or.inl (blank_new name).first
    · rw [fat16_open_write_full name kzalloc hfind hfree, Prod.mk.injEq] at heq
      obtain ⟨rfl, rfl⟩ := heq
      exact ⟨h, fun desc hd => by cases hd⟩

theorem coherent_delete (hL : L.Wf) (h : VolumeCoherent L v) (name : Nat → UInt8) :
    VolumeCoherent L (fat16_delete v name).2 := by
  rcases fat16_find_root_dir_slot_by_name_spec h.ok.mounted name with
    ⟨i, hfind, hi, hlive, -⟩ | ⟨hfind, -⟩
  · rw [fat16_delete_found name i hfind]
    exact coherent_recycle hL h i hi hlive.2.2 _
      (Or.inl (blank_emptied (v.priv.root_directory.item i)).first)
  · rw [fat16_delete_missing name hfind]
    exact h

theorem coherent_run (hL : L.Wf) (v : Volume) (h : VolumeCoherent L v) (calls : List Call) :
    VolumeCoherent L (calls.foldl Sys.step (Sys.start v)).vol := by
  have hinv := foldl_keeps (SysInv (VolumeCoherent L) (DescGood L)) (fun s c hs =>
    sysInv_step (fun v part kzalloc v' res hv heq => coherent_open hL hv part kzalloc v' res heq)
      (fun v part hv => coherent_delete hL hv part) s c hs
      (fun _ size nmemb buf f _ _ hd => coherent_write hL hs.vol f.desc hd size nmemb buf))
    calls (Sys.start v) (sysInv_start v h)
  exact hinv.vol

/-- Under every interleaving of calls the cached directory is the one on disk, and the two FAT copies
are the same. -/
theorem redundancy_kept (hL : L.Wf) (v : Volume) (hm : Mounted v.priv L) (ha : ItemsOnDisk L v)
    (hb : CopiesEqual L v)
    (hlinks : ∀ c < L.entries, (v.view L).fat c = 0 ∨ L.InRange ((v.view L).fat c) ∨
      0xFFF8 ≤ (v.view L).fat c)
    (hfirsts : ∀ i < L.rde, (v.priv.root_directory.item i).attr ≠ 0x0F →
      fat16_get_first_cluster (v.priv.root_directory.item i) = 0 ∨
      L.InRange (fat16_get_first_cluster (v.priv.root_directory.item i))) (calls : List Call) :
    ItemsOnDisk L (calls.foldl Sys.step (Sys.start v)).vol ∧
      CopiesEqual L (calls.foldl Sys.step (Sys.start v)).vol := by
  have hsync := synced_iff_bytes.mpr ha
  have hstart : VolumeCoherent L v := by
    refine ⟨⟨hm, hsync⟩, ⟨copies_iff_view.mp hb, fun c => ?_⟩, fun i hi hattr => ?_⟩
    · by_cases hc : c < L.entries
      · rcases hlinks c hc with h0 | hr | he
        · rw [h0]
          exact goodLink_zero
        · exact Or.inr hr
        · exact Or.inl (Or.inr he)
      · rw [show (v.view L).fat c = 0 from if_neg hc]
        exact goodLink_zero
    · rw [← hsync i hi] at hattr ⊢
      exact hfirsts i hi hattr
  have h := coherent_run hL v hstart calls
  exact ⟨synced_iff_bytes.mp h.ok.synced, copies_iff_view.mpr h.table.mirror⟩

theorem sample_redundancy :
    ItemsOnDisk sampleLayout (([.open_ (cstr [66]) [] .enough, .write 0 1 600 (fun _ => 3),
      .delete (cstr [66]), .write 0 1 600 (fun _ => 3)] : List Call).foldl Sys.step
        (Sys.start sample)).vol :=
  (redundancy_kept sample_wf sample sample_ok.mounted (synced_iff_bytes.mp sample_ok.synced)
    (by unfold CopiesEqual; rw [sampleLayout_eq]; decide +kernel)
    (by rw [sampleLayout_eq]; decide +kernel) (by rw [sampleLayout_eq]; decide +kernel) _).1

end Fat

end PeachOS
