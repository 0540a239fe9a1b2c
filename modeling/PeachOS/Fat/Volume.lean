import PeachOS.Fat.Grow
import PeachOS.Fat.Lookup

/-!
# The public functions on a mounted volume

What `fat16_open`, `fat16_write` and `fat16_delete` do to the view, with the in-memory directory kept
equal to the one on disk.
-/

open PeachOS.Lib PeachOS.Streamer

namespace PeachOS.Fat

variable {L : Layout} {v : Volume}

/-! ## Storing an entry -/

theorem mounted_setItem (p : FatPrivate) (h : Mounted p L) (i : Nat) (it : FatDirectoryItem) :
    Mounted (p.setItem i it) L :=
  ⟨h.copies, h.reserved, h.spf, h.rde, h.spc, h.sector_pos, h.ending, h.clusters⟩

theorem ok_of_dir (hv : v.Ok L) (e : Disk) (hdir : (L.view e.sector).dir = (v.view L).dir) :
    Volume.Ok { v with disk := e } L := by
  refine ⟨hv.mounted, fun i hi => (hv.synced i hi).trans ?_⟩
  rw [← hdir]
  rfl

theorem fat16_store_entry_spec (hv : v.Ok L) (hL : L.Wf) (i : Nat) (hi : i < L.rde)
    (it : FatDirectoryItem) :
    (fat16_store_entry v i it).Ok L ∧ (fat16_store_entry v i it).view L = (v.view L).setDir i it ∧
      ∀ Q : View → Prop, Q (v.view L) → Q ((v.view L).setDir i it) →
        VSteps L Q v.disk (fat16_store_entry v i it).disk := by
  have hm := mounted_setItem v.priv hv.mounted i it
  obtain ⟨e, w, heq, hs, hw, ha, hview⟩ := fat16_write_root_dir_entry_spec hm hL v.disk i hi
  have hit : (v.priv.setItem i it).root_directory.item i = it := if_pos rfl
  rw [hit] at hview
  have hd : (fat16_store_entry v i it).disk = e := by
    simp only [fat16_store_entry, heq]
  have hview' : (fat16_store_entry v i it).view L = (v.view L).setDir i it := by
    unfold Volume.view
    rw [hd, hview]
  refine ⟨⟨hm, ?_⟩, hview', ?_⟩
  · intro j hj
    rw [hview', View.setDir_dir]
    by_cases hji : j = i
    · rw [if_pos hji, hji]
      exact hit
    · rw [if_neg hji]
      exact (if_neg hji).trans (hv.synced j hj)
  · intro Q h0 h1
    rw [hd]
    refine ⟨hs, [w], hw, ha, through_single _ _ w.1 w.2 h0 ?_⟩
    rw [ha] at hview
    unfold Volume.view at h1
    rw [← hview] at h1
    exact h1

/-! ## The item after a write -/

section Grown

variable (it : FatDirectoryItem) (f pos n : Nat)

theorem grown_first (hf0 : f ≠ 0) (hf : f < 2 ^ 32)
    (h : fat16_get_first_cluster it ≠ 0 → f = fat16_get_first_cluster it) :
    fat16_get_first_cluster (fat16_grown_item it f pos n) = f := by
  unfold fat16_grown_item
  by_cases hlow : it.low_16_bits_first_cluster = 0
  · have hset : it.low_16_bits_first_cluster = 0 ∧ f ≠ 0 := ⟨hlow, hf0⟩
    simp only [if_pos hset]
    split <;> simp [fat16_get_first_cluster] <;> omega
  · have hne : fat16_get_first_cluster it ≠ 0 := by
      have : it.low_16_bits_first_cluster.toNat ≠ 0 := fun h0 => hlow (UInt16.toNat_inj.mp h0)
      unfold fat16_get_first_cluster
      omega
    simp only [if_neg (fun hh : _ ∧ _ => hlow hh.1)]
    rw [h hne]
    split <;> rfl

theorem grown_size (hsum : pos + n < 2 ^ 32) :
    (fat16_grown_item it f pos n).filesize.toNat = max it.filesize.toNat (pos + n) := by
  have hu : u32 ((pos : Int) + (n : Int)) = pos + n := by
    rw [← Int.natCast_add, u32_natCast, Nat.mod_eq_of_lt hsum]
  have hof : (UInt32.ofNat (pos + n)).toNat = pos + n := UInt32.toNat_ofNat_of_lt' hsum
  unfold fat16_grown_item
  simp only [hu]
  split <;> split <;> simp_all <;> omega

theorem grown_name : (fat16_grown_item it f pos n).filename = it.filename ∧
    (fat16_grown_item it f pos n).ext = it.ext ∧ (fat16_grown_item it f pos n).attr = it.attr := by
  unfold fat16_grown_item
  dsimp only
  split <;> split <;> exact ⟨rfl, rfl, rfl⟩

theorem grown_live : Live (fat16_grown_item it f pos n) ↔ Live it := by
  obtain ⟨h1, -, h3⟩ := grown_name it f pos n
  unfold Live
  rw [h1, h3]

end Grown

/-! ## Writing -/

/-- A finished write through `desc`: from the view `v.view L` the clusters `l₀` have grown to the chain
`l` in `σ`, and then the entry in `slot` has been replaced by the item of `desc'`. -/
structure WriteDone (L : Layout) (v : Volume) (desc : FatFileDescriptor) (slot total : Nat)
    (buf : Nat → UInt8) (l₀ : List Nat) (v' : Volume) (desc' : FatFileDescriptor) (σ : View)
    (l : List Nat) : Prop where
  grows : Grows (v.view L) l₀ σ l
  written : Written L (v.view L) l₀ desc.pos total buf σ l
  chain : FatChain L σ.fat (fat16_get_first_cluster desc'.item.item) l
  view : v'.view L = σ.setDir slot desc'.item.item
  size : desc'.item.item.filesize.toNat = max desc.item.item.filesize.toNat (desc.pos + total)
  live : Live desc'.item.item ↔ Live desc.item.item
  name : desc'.item.item.filename = desc.item.item.filename ∧ desc'.item.item.ext = desc.item.item.ext
  pos : desc'.pos = desc.pos + total
  type : desc'.item.type = desc.item.type
  slot : desc'.root_dir_slot = desc.root_dir_slot

/-- How a write can end. Every view on the way is safe to stop in, or is the last one. -/
structure WriteEnd (L : Layout) (v : Volume) (desc : FatFileDescriptor) (slot size nmemb : Nat)
    (buf : Nat → UInt8) (l₀ : List Nat) (r : Int) (v' : Volume) (desc' : FatFileDescriptor) :
    Prop where
  ok : v'.Ok L
  steps : VSteps L (fun σ => GrowsFrom L (v.view L) (fat16_get_first_cluster desc.item.item) l₀ σ ∨
    σ = v'.view L) v.disk v'.disk
  cases : (r = -ENOMEM ∧ desc' = desc ∧
      GrowsFrom L (v.view L) (fat16_get_first_cluster desc.item.item) l₀ (v'.view L)) ∨
    (r = i32 nmemb ∧ ∃ σ l, WriteDone L v desc slot (u32 (size * nmemb)) buf l₀ v' desc' σ l)

theorem fat16_write_spec (hv : v.Ok L) (hL : L.Wf) (hS : L.Small) (desc : FatFileDescriptor) (slot : Nat)
    (hslot : desc.root_dir_slot = slot) (hlt : slot < L.rde) (size nmemb : Nat) (buf : Nat → UInt8)
    (l₀ : List Nat)
    (hl : ClusterList L (v.view L).fat (fat16_get_first_cluster desc.item.item) l₀)
    (hpos : fat16_get_first_cluster desc.item.item = 0 → desc.pos = 0) :
    ∃ r v' desc', fat16_write v desc size nmemb buf = (r, v', desc') ∧
      WriteEnd L v desc slot size nmemb buf l₀ r v' desc' := by
  obtain ⟨r, f, e, heq, hsteps, hres⟩ := fat16_write_internal_grows hv.mounted hL hS v.disk
    (fat16_get_first_cluster desc.item.item) desc.pos (u32 (size * nmemb)) buf l₀ hl hpos
  have hsafe := vsteps_last L _ _ _ hsteps
  have hdir : (L.view e.sector).dir = (v.view L).dir := by
    obtain ⟨l, -, hg⟩ := hsafe
    exact hg.dir
  have hfail : r = -ENOMEM → ∃ r v' desc', fat16_write v desc size nmemb buf = (r, v', desc') ∧
      WriteEnd L v desc slot size nmemb buf l₀ r v' desc' := by
    rintro rfl
    refine ⟨-ENOMEM, { v with disk := e }, desc, ?_, ok_of_dir hv e hdir,
      vsteps_mono L _ _ _ _ hsteps (fun σ => Or.inl), Or.inl ⟨rfl, rfl, hsafe⟩⟩
    simp only [fat16_write, heq]
    rfl
  rcases hres with ⟨hr, -, -⟩ | ⟨hf, l, hchain, hgrows, hr | ⟨rfl, hw⟩⟩
  · exact hfail hr
  · exact hfail hr
  · have hbelow := chain_bytes_below hL hS hchain
    have hfr := chain_ok _ _ hchain _ (chain_mem_first _ _ hchain)
    have hcl := clusters_lt hL
    have hroom := hw.room
    set total := u32 (size * nmemb) with htotal
    set item := fat16_grown_item desc.item.item f desc.pos total with hitem
    have hfirst : fat16_get_first_cluster item = f :=
      grown_first _ _ _ _ (by have := hfr.1; omega) (by have := hfr.2; omega) hf
    have hu : u32 ((desc.pos : Int) + (total : Int)) = desc.pos + total := by
      rw [← Int.natCast_add, u32_natCast, Nat.mod_eq_of_lt (by omega)]
    obtain ⟨hok, hview, hst⟩ := fat16_store_entry_spec (ok_of_dir hv e hdir) hL slot hlt item
    refine ⟨i32 nmemb, fat16_store_entry { v with disk := e } slot item,
      { desc with item := { desc.item with item := item }, pos := desc.pos + total }, ?_, hok, ?_,
      Or.inr ⟨rfl, L.view e.sector, l, hgrows, hw, ?_, hview, ?_, ?_, ?_, rfl, rfl, rfl⟩⟩
    · simp only [fat16_write, ← htotal, heq, if_neg (show ¬ ((total : Int) < 0) by omega),
        Int.toNat_natCast, hu, hslot, ← hitem]
      rw [if_pos (by omega)]
    · refine vsteps_trans L _ _ e _ (vsteps_mono L _ _ _ _ hsteps (fun σ => Or.inl)) ?_
      exact hst _ (Or.inl hsafe) (Or.inr hview.symm)
    · rw [hfirst]
      exact hchain
    · exact grown_size _ _ _ _ (by omega)
    · exact grown_live _ _ _ _
    · exact ⟨(grown_name _ _ _ _).1, (grown_name _ _ _ _).2.1⟩

/-! ## Opening and deleting -/

/-- The entry of a deleted file. -/
def deleted (it : FatDirectoryItem) : FatDirectoryItem :=
  { emptied it with filename := fun i => if i = 0 then 0xE5 else it.filename i }

/-- Both functions free the chain of the slot and then store an entry in it. -/
def recycle (v : Volume) (i : Nat) (it : FatDirectoryItem) : Volume :=
  let first_cluster := fat16_get_first_cluster (v.priv.root_directory.item i)
  let d := if first_cluster ≥ 2 then fat16_free_cluster_chain v.priv v.disk first_cluster else v.disk
  fat16_store_entry { v with disk := d } i it

section Equations

variable (name : Nat → UInt8) (kzalloc : FatMemory) (i : Nat)

theorem fat16_delete_found (h : fat16_find_root_dir_slot_by_name v.priv name = i) :
    fat16_delete v name = (0, recycle v i (deleted (v.priv.root_directory.item i))) := by
  simp only [fat16_delete, h, if_neg (show ¬ ((i : Int) < 0) by omega), Int.toNat_natCast]
  rfl

theorem fat16_delete_missing (h : fat16_find_root_dir_slot_by_name v.priv name = -1) :
    fat16_delete v name = (- EIO, v) := by
  simp only [fat16_delete, h, if_pos (show (-1 : Int) < 0 by omega)]

theorem fat16_open_write_found (h : fat16_find_root_dir_slot_by_name v.priv name = i) :
    fat16_open_write v name kzalloc =
      (recycle v i (emptied (v.priv.root_directory.item i)),
        fat16_open_descriptor (recycle v i (emptied (v.priv.root_directory.item i))) i kzalloc) := by
  simp only [fat16_open_write, h, if_pos (show (i : Int) ≥ 0 by omega), Int.toNat_natCast]
  rfl

theorem fat16_open_write_new (h : fat16_find_root_dir_slot_by_name v.priv name = -1)
    (h' : fat16_find_free_root_dir_slot v.priv = i) :
    fat16_open_write v name kzalloc =
      (fat16_open_create v i name, fat16_open_descriptor (fat16_open_create v i name) i kzalloc) := by
  simp only [fat16_open_write, h, h', if_neg (show ¬ ((-1 : Int) ≥ 0) by omega),
    if_neg (show ¬ ((i : Int) < 0) by omega), Int.toNat_natCast]

theorem fat16_open_write_full (h : fat16_find_root_dir_slot_by_name v.priv name = -1)
    (h' : fat16_find_free_root_dir_slot v.priv = -ENOMEM) :
    fat16_open_write v name kzalloc = (v, .error (-ENOMEM)) := by
  simp only [fat16_open_write, h, h', if_neg (show ¬ ((-1 : Int) ≥ 0) by omega),
    if_pos (show -ENOMEM < 0 by decide)]

theorem recycle_item (it : FatDirectoryItem) (j : Nat) :
    (recycle v i it).priv.root_directory.item j = if j = i then it else v.priv.root_directory.item j := rfl

theorem open_create_item (j : Nat) : (fat16_open_create v i name).priv.root_directory.item j =
    if j = i then fat16_new_entry name else v.priv.root_directory.item j := by
  unfold fat16_open_create
  dsimp only
  split <;> rfl

theorem open_create_header : (fat16_open_create v i name).priv.header = v.priv.header := by
  unfold fat16_open_create
  dsimp only
  split <;> rfl

end Equations

/-- Slot `i` gets the entry `it`. The clusters of the file that was there are freed. -/
def Recycled (L : Layout) (σ : View) (i : Nat) (it : FatDirectoryItem) (σ' : View) : Prop :=
  ∃ l, ((Live (σ.dir i) ∧ ClusterList L σ.fat (fat16_get_first_cluster (σ.dir i)) l) ∨
      (FreeSlot (σ.dir i) ∧ l = [])) ∧ σ' = (σ.clear l).setDir i it

theorem release_spec (hv : v.Ok L) (hL : L.Wf) (hS : L.Small) (first : Nat) (l : List Nat)
    (hl : ClusterList L (v.view L).fat first l) (e : Disk)
    (he : e = if first ≥ 2 then fat16_free_cluster_chain v.priv v.disk first else v.disk) :
    L.view e.sector = (v.view L).clear l ∧ VSteps L (fun _ => True) v.disk e := by
  rcases hl with ⟨rfl, rfl⟩ | hl
  · rw [he, if_neg (by omega), View.clear_nil]
    exact ⟨rfl, vsteps_refl L _ _ trivial⟩
  · have hfirst := chain_ok _ _ hl _ (chain_mem_first _ _ hl)
    rw [he, if_pos hfirst.1]
    exact fat16_free_cluster_chain_spec hv.mounted hL hS v.disk first l hl

theorem recycle_spec (hv : v.Ok L) (hL : L.Wf) (hS : L.Small) (hc : ChainsOk L (v.view L)) (i : Nat)
    (hi : i < L.rde) (hlive : Live ((v.view L).dir i)) (it : FatDirectoryItem) :
    (recycle v i it).Ok L ∧ Recycled L (v.view L) i it ((recycle v i it).view L) ∧
      (recycle v i it).priv.root_directory.item i = it := by
  obtain ⟨l, hl⟩ := hc.list i hi hlive
  rw [← hv.synced i hi] at hl
  obtain ⟨hview, -⟩ := release_spec hv hL hS _ l hl _ rfl
  obtain ⟨hok, hst, -⟩ := fat16_store_entry_spec (ok_of_dir hv _ (by rw [hview, View.clear_dir])) hL i hi it
  rw [hv.synced i hi] at hl
  refine ⟨hok, ⟨l, Or.inl ⟨hlive, hl⟩, hst.trans ?_⟩, if_pos rfl⟩
  rw [← hview]
  rfl

theorem fat16_open_create_spec (hv : v.Ok L) (hL : L.Wf) (i : Nat) (hi : i < L.rde)
    (hfree : FreeSlot ((v.view L).dir i)) (name : Nat → UInt8) :
    (fat16_open_create v i name).Ok L ∧
      Recycled L (v.view L) i (fat16_new_entry name) ((fat16_open_create v i name).view L) ∧
      (fat16_open_create v i name).priv.root_directory.item i = fat16_new_entry name := by
  obtain ⟨hok, hst, -⟩ := fat16_store_entry_spec hv hL i hi (fat16_new_entry name)
  have hrec : Recycled L (v.view L) i (fat16_new_entry name)
      ((fat16_store_entry v i (fat16_new_entry name)).view L) :=
    ⟨[], Or.inr ⟨hfree, rfl⟩, by rw [hst, View.clear_nil]⟩
  have hm := hok.mounted
  unfold fat16_open_create
  dsimp only
  split
  · exact ⟨⟨⟨hm.copies, hm.reserved, hm.spf, hm.rde, hm.spc, hm.sector_pos, hm.ending, hm.clusters⟩,
      hok.synced⟩, hrec, if_pos rfl⟩
  · exact ⟨hok, hrec, if_pos rfl⟩

/-- A descriptor that has just been opened for writing: slot `i`, at the start, with the entry `it`. -/
structure Opened (desc : FatFileDescriptor) (i : Nat) (it : FatDirectoryItem) : Prop where
  item : desc.item.item = it
  pos : desc.pos = 0
  slot : desc.root_dir_slot = i
  type : desc.item.type = .file

theorem fat16_open_descriptor_spec (slot : Nat) (kzalloc : FatMemory) (desc : FatFileDescriptor)
    (h : fat16_open_descriptor v slot kzalloc = .ok desc) :
    Opened desc slot (v.priv.root_directory.item slot) := by
  unfold fat16_open_descriptor at h
  split at h
  · cases h
  split at h
  · cases h
  split at h
  · cases h
  cases h
  exact ⟨rfl, rfl, rfl, rfl⟩

/-- The entry that a write-mode open leaves in slot `i`: the old one emptied, or a new one. -/
def OpenedEntry (σ : View) (i : Nat) (name : Nat → UInt8) (it : FatDirectoryItem) : Prop :=
  (Live (σ.dir i) ∧ Matches (σ.dir i) name ∧ it = emptied (σ.dir i)) ∨
    (FreeSlot (σ.dir i) ∧ it = fat16_new_entry name)

theorem fat16_open_write_spec (hv : v.Ok L) (hL : L.Wf) (hS : L.Small) (hc : ChainsOk L (v.view L))
    (name : Nat → UInt8) (kzalloc : FatMemory) (v' : Volume) (res : Except Int FatFileDescriptor)
    (h : fat16_open_write v name kzalloc = (v', res)) :
    v'.Ok L ∧ ((v' = v ∧ res = .error (-ENOMEM)) ∨
      ∃ i it, i < L.rde ∧ OpenedEntry (v.view L) i name it ∧ Recycled L (v.view L) i it (v'.view L) ∧
        ∀ desc, res = .ok desc → Opened desc i it) := by
  rcases fat16_find_root_dir_slot_by_name_spec hv.mounted name with
    ⟨i, heq, hi, hlive, hname, -⟩ | ⟨heq, -⟩
  · rw [fat16_open_write_found name kzalloc i heq, Prod.mk.injEq] at h
    obtain ⟨rfl, rfl⟩ := h
    rw [hv.synced i hi] at hlive hname
    obtain ⟨hok, hrec, hit⟩ := recycle_spec hv hL hS hc i hi hlive
      (emptied (v.priv.root_directory.item i))
    refine ⟨hok, Or.inr ⟨i, _, hi, Or.inl ⟨hlive, hname, by rw [hv.synced i hi]⟩, hrec,
      fun desc hd => ?_⟩⟩
    have hop := fat16_open_descriptor_spec i kzalloc desc hd
    rw [hit] at hop
    exact hop
  · rcases fat16_find_free_root_dir_slot_spec hv.mounted with ⟨i, heq', hi, hfree, -⟩ | ⟨heq', -⟩
    · rw [fat16_open_write_new name kzalloc i heq heq', Prod.mk.injEq] at h
      obtain ⟨rfl, rfl⟩ := h
      rw [hv.synced i hi] at hfree
      obtain ⟨hok, hrec, hit⟩ := fat16_open_create_spec hv hL i hi hfree name
      refine ⟨hok, Or.inr ⟨i, _, hi, Or.inr ⟨hfree, rfl⟩, hrec, fun desc hd => ?_⟩⟩
      have hop := fat16_open_descriptor_spec i kzalloc desc hd
      rw [hit] at hop
      exact hop
    · rw [fat16_open_write_full name kzalloc heq heq', Prod.mk.injEq] at h
      obtain ⟨rfl, rfl⟩ := h
      exact ⟨hv, Or.inl ⟨rfl, rfl⟩⟩

theorem fat16_delete_spec (hv : v.Ok L) (hL : L.Wf) (hS : L.Small) (hc : ChainsOk L (v.view L))
    (name : Nat → UInt8) (r : Int) (v' : Volume) (h : fat16_delete v name = (r, v')) :
    v'.Ok L ∧ ((v' = v ∧ r = - EIO) ∨
      ∃ i, i < L.rde ∧ Live ((v.view L).dir i) ∧ Matches ((v.view L).dir i) name ∧ r = 0 ∧
        Recycled L (v.view L) i (deleted ((v.view L).dir i)) (v'.view L)) := by
  rcases fat16_find_root_dir_slot_by_name_spec hv.mounted name with
    ⟨i, heq, hi, hlive, hname, -⟩ | ⟨heq, -⟩
  · rw [fat16_delete_found name i heq, Prod.mk.injEq] at h
    obtain ⟨rfl, rfl⟩ := h
    rw [hv.synced i hi] at hlive hname
    obtain ⟨hok, hrec, -⟩ := recycle_spec hv hL hS hc i hi hlive (deleted (v.priv.root_directory.item i))
    refine ⟨hok, Or.inr ⟨i, hi, hlive, hname, rfl, ?_⟩⟩
    rw [show deleted ((v.view L).dir i) = deleted (v.priv.root_directory.item i) by
      rw [hv.synced i hi]]
    exact hrec
  · rw [fat16_delete_missing name heq, Prod.mk.injEq] at h
    obtain ⟨rfl, rfl⟩ := h
    exact ⟨hv, Or.inl ⟨rfl, rfl⟩⟩

end PeachOS.Fat
