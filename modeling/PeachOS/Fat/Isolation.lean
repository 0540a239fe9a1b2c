import PeachOS.Fat.Sessions
import PeachOS.Fat.System

/-!
# Many descriptors at once

A descriptor keeps a copy of its entry and its slot number. Both go stale when the file is deleted or
truncated behind its back. A write is confined to its own file as long as the slot still holds that
file and the clusters it starts from are no other file's.
-/

open PeachOS.Lib PeachOS.Streamer

namespace PeachOS

/-- Slot `j` holds the file that `f` was opened for. -/
def Sys.Own (s : Sys) (f : OpenFile) (j : Nat) : Prop :=
  f.desc.root_dir_slot = j ∧ s.gen j = f.born

/-- A write changes the entry and the data of no live file but its own, and the live chains stay
disjoint. -/
def Confined (L : Layout) (s : Sys) : Call → Prop
  | .write fd size nmemb buf => ∀ f, s.file fd = some f →
    (∀ j < L.rde, Live ((s.vol.view L).dir j) → ¬ s.Own f j →
      Untouched L (s.vol.view L) ((s.step (.write fd size nmemb buf)).vol.view L) j) ∧
    ChainsOk L ((s.step (.write fd size nmemb buf)).vol.view L)
  | _ => True

/-- The file of `f` has not been deleted since it was opened. The first cluster that `f` remembers is
0, or starts a chain that no other live entry shares; the entry of the file itself may start the same
chain, and shares no cluster with it otherwise. -/
def Current (L : Layout) (s : Sys) (f : OpenFile) : Prop :=
  s.Own f f.desc.root_dir_slot.toNat ∧
  ∃ l, ClusterList L (s.vol.view L).fat (fat16_get_first_cluster f.desc.item.item) l ∧
    ∀ j < L.rde, Live ((s.vol.view L).dir j) →
      (s.Own f j ∧
        fat16_get_first_cluster ((s.vol.view L).dir j) = fat16_get_first_cluster f.desc.item.item) ∨
      ∀ m, ClusterList L (s.vol.view L).fat (fat16_get_first_cluster ((s.vol.view L).dir j)) m →
        l.Disjoint m

/-- Every write goes through a descriptor that is current. -/
def WritesCurrent (L : Layout) (s : Sys) : Call → Prop
  | .write fd _ _ _ => ∀ f, s.file fd = some f → Current L s f
  | _ => True

namespace Fat

variable {L : Layout}

/-- What holds of every open descriptor: its slot is in the directory, and it is at the start of its
file as long as it has no clusters. -/
structure DescOk (L : Layout) (desc : FatFileDescriptor) : Prop where
  slot : ∃ slot : Nat, desc.root_dir_slot = slot ∧ slot < L.rde
  start : fat16_get_first_cluster desc.item.item = 0 → desc.pos = 0

/-- A mounted volume whose live chains are disjoint. -/
structure ChainsVolume (L : Layout) (v : Volume) : Prop where
  ok : v.Ok L
  chains : ChainsOk L (v.view L)

theorem chainsVolume_open (hL : L.Wf) (hS : L.Small) (v : Volume) (part : Nat → UInt8)
    (kzalloc : FatMemory) (v' : Volume) (res : Except Int FatFileDescriptor) (h : ChainsVolume L v)
    (heq : fat16_open_write v part kzalloc = (v', res)) :
    ChainsVolume L v' ∧ ∀ desc, res = .ok desc → DescOk L desc := by
  obtain ⟨hok, hcase⟩ := fat16_open_write_spec h.ok hL hS h.chains part kzalloc v' res heq
  rcases hcase with ⟨rfl, rfl⟩ | ⟨i, it, hi, hentry, hrec, hop⟩
  · exact ⟨h, fun desc hd => by cases hd⟩
  · have hblank := blank_opened i part it hentry
    refine ⟨⟨hok, recycled_chainsOk hS h.chains it hi hrec (fun _ => hblank)⟩, fun desc hd => ?_⟩
    exact ⟨⟨i, (hop desc hd).slot, hi⟩, fun _ => (hop desc hd).pos⟩

theorem chainsVolume_delete (hL : L.Wf) (hS : L.Small) (v : Volume) (part : Nat → UInt8)
    (h : ChainsVolume L v) : ChainsVolume L (fat16_delete v part).2 := by
  obtain ⟨r, v', heq⟩ : ∃ r v', fat16_delete v part = (r, v') := ⟨_, _, rfl⟩
  obtain ⟨hok, hcase⟩ := fat16_delete_spec h.ok hL hS h.chains part r v' heq
  rw [heq]
  refine ⟨hok, ?_⟩
  rcases hcase with ⟨rfl, -⟩ | ⟨i, hi, -, -, -, hrec⟩
  · exact h.chains
  · exact recycled_chainsOk hS h.chains _ hi hrec (fun hl => absurd hl (not_live_deleted _))

theorem current_apart (s : Sys) (f : OpenFile) (h : Current L s f) (slot : Nat)
    (hslot : f.desc.root_dir_slot = slot) :
    s.Own f slot ∧ ∃ l,
      ClusterList L (s.vol.view L).fat (fat16_get_first_cluster f.desc.item.item) l ∧
      Apart L (s.vol.view L) slot l ∧ (slot < L.rde → Live ((s.vol.view L).dir slot) →
        fat16_get_first_cluster ((s.vol.view L).dir slot) = fat16_get_first_cluster f.desc.item.item ∨
        ∀ m, ClusterList L (s.vol.view L).fat (fat16_get_first_cluster ((s.vol.view L).dir slot)) m →
          l.Disjoint m) := by
  obtain ⟨hown, l, hl, hall⟩ := h
  rw [hslot, Int.toNat_natCast] at hown
  refine ⟨hown, l, hl, fun j hj hne hlive => ?_, fun hlt hlive => ?_⟩
  · rcases hall j hj hlive with ⟨ho, -⟩ | hd
    · have hsj := ho.1
      rw [hslot] at hsj
      exact absurd (Int.ofNat_inj.mp hsj).symm hne
    · exact hd
  · rcases hall slot hlt hlive with ⟨-, heq⟩ | hd
    · exact Or.inl heq
    · exact Or.inr hd

theorem growsFrom_chainsOk (hS : L.Small) (σ σ' : View) (slot first : Nat) (l : List Nat)
    (hc : ChainsOk L σ) (hlt : slot < L.rde) (hap : Apart L σ slot l)
    (hown : Live (σ.dir slot) → fat16_get_first_cluster (σ.dir slot) = first ∨
      ∀ m, ClusterList L σ.fat (fat16_get_first_cluster (σ.dir slot)) m → l.Disjoint m)
    (hg : GrowsFrom L σ first l σ') : ChainsOk L σ' := by
  obtain ⟨m, hm, hgrows⟩ := hg
  refine chainsOk_replace hS hc (grows_replaces hgrows hap) (fun hlive => ?_)
  rw [hgrows.dir] at hlive ⊢
  rcases hown hlive with heq | hd
  · rw [heq]
    exact ⟨m, hm, grows_apart hgrows hap⟩
  · -- The entry has clusters of its own, which the write leaves alone.
    obtain ⟨k, hk⟩ := hc.list slot hlt hlive
    have hu := grows_untouched hgrows slot hd
    exact ⟨k, (hu.2 k hk).1,
      fun j hj hne hlj n hn => hc.apart slot hlt j hj (Ne.symm hne) hlive hlj k n hk hn⟩

theorem write_confined (hL : L.Wf) (hS : L.Small) (s : Sys) (h : ChainsVolume L s.vol) (f : OpenFile)
    (hf : DescOk L f.desc) (hcur : Current L s f) (size nmemb : Nat) (buf : Nat → UInt8) (r : Int)
    (v' : Volume) (desc' : FatFileDescriptor)
    (heq : fat16_write s.vol f.desc size nmemb buf = (r, v', desc')) :
    ChainsVolume L v' ∧ DescOk L desc' ∧
      ∀ j < L.rde, Live ((s.vol.view L).dir j) → ¬ s.Own f j →
        Untouched L (s.vol.view L) (v'.view L) j := by
  obtain ⟨slot, hslot, hlt⟩ := hf.slot
  obtain ⟨hown, l, hl, hap, hself⟩ := current_apart s f hcur slot hslot
  obtain ⟨r₁, v₁, desc₁, heq₁, hend⟩ := fat16_write_spec h.ok hL hS f.desc slot hslot hlt size nmemb buf l
    hl hf.start
  rw [heq] at heq₁
  cases heq₁
  have hothers : ∀ σ, Replaces L slot (s.vol.view L) σ → ∀ j < L.rde, Live ((s.vol.view L).dir j) →
      ¬ s.Own f j → Untouched L (s.vol.view L) σ j := by
    intro σ hrep j hj hlive hno
    exact hrep.others j hj (fun e => hno (e ▸ hown)) hlive
  rcases hend.cases with ⟨-, rfl, hg⟩ | ⟨-, σ, m, hd⟩
  · have hg' := hg
    obtain ⟨m, -, hgrows⟩ := hg'
    exact ⟨⟨hend.ok, growsFrom_chainsOk hS _ _ slot _ l h.chains hlt hap (hself hlt) hg⟩, hf,
      hothers _ (grows_replaces hgrows hap)⟩
  · have hrep := grows_setDir_replaces hd.grows hap desc'.item.item
    rw [← hd.view] at hrep
    have hentry : (v'.view L).dir slot = desc'.item.item := by
      rw [hd.view, View.setDir_dir, if_pos rfl]
    refine ⟨⟨hend.ok, chainsOk_replace hS h.chains hrep (fun _ => ⟨m, ?_, grows_apart hd.grows hap⟩)⟩,
      ⟨⟨slot, by rw [hd.slot, hslot], hlt⟩, fun hz => ?_⟩, hothers _ hrep⟩
    · rw [hentry, hd.view]
      exact Or.inr hd.chain
    · have := chain_ok _ _ hd.chain _ (chain_mem_first _ _ hd.chain)
      rw [hz] at this
      exact absurd this not_inRange_zero

theorem confined_step (hL : L.Wf) (hS : L.Small) (s : Sys) (c : Call)
    (h : SysInv (ChainsVolume L) (DescOk L) s) (hc : WritesCurrent L s c) :
    SysInv (ChainsVolume L) (DescOk L) (s.step c) ∧ Confined L s c := by
  have hwrite : ∀ fd size nmemb buf f, c = .write fd size nmemb buf → s.file fd = some f →
      DescOk L f.desc → ChainsVolume L (fat16_write s.vol f.desc size nmemb buf).2.1 ∧
        DescOk L (fat16_write s.vol f.desc size nmemb buf).2.2 ∧
        ∀ j < L.rde, Live ((s.vol.view L).dir j) → ¬ s.Own f j → Untouched L (s.vol.view L)
          ((fat16_write s.vol f.desc size nmemb buf).2.1.view L) j := by
    rintro fd size nmemb buf f rfl hfile hd
    exact write_confined hL hS s h.vol f hd (hc f hfile) size nmemb buf _ _ _ rfl
  refine ⟨sysInv_step (chainsVolume_open hL hS) (chainsVolume_delete hL hS) s c h ?_, ?_⟩
  · intro fd size nmemb buf f hc hfile hd
    obtain ⟨h1, h2, -⟩ := hwrite fd size nmemb buf f hc hfile hd
    exact ⟨h1, h2⟩
  · cases c with
    | write fd size nmemb buf =>
      intro f hfile
      obtain ⟨h1, -, h3⟩ := hwrite fd size nmemb buf f rfl hfile (h.files f (file_mem s fd f hfile))
      simp only [Sys.step, hfile]
      exact ⟨h3, h1.chains⟩
    | open_ part next kzalloc => trivial
    | close fd => trivial
    | delete part => trivial

/-- In every run whose writes all go through current descriptors, every write is confined to its file. -/
theorem writes_confined (hL : L.Wf) (hS : L.Small) (v : Volume) (hv : v.Ok L)
    (hc : ChainsOk L (v.view L)) (calls : List Call)
    (hcur : Along Sys.step (WritesCurrent L) calls (Sys.start v)) :
    Along Sys.step (Confined L) calls (Sys.start v) :=
  along_of_inv (SysInv (ChainsVolume L) (DescOk L)) (WritesCurrent L) (Confined L)
    (fun s c hs hcond => confined_step hL hS s c hs hcond) calls _ (sysInv_start v ⟨hv, hc⟩) hcur

/-! ## Stale descriptors -/

/-- A new file is opened and deleted. A second one gets its slot. -/
def slotReused : List Call :=
  [.open_ (cstr [66]) [] .enough, .delete (cstr [66]),
    .open_ (cstr [67]) [] .enough]

/-- A file with one cluster is opened again, which frees the cluster. A second file gets it. -/
def clusterReused : List Call :=
  [.open_ (cstr [66]) [] .enough, .write 0 1 1 (fun _ => 1),
    .open_ (cstr [66]) [] .enough, .open_ (cstr [67]) [] .enough,
    .write 2 1 4 (fun _ => 2)]

theorem slotReused_facts :
    ((slotReused.foldl Sys.step (Sys.start sample)).file 0).map (·.born) = some 1 ∧
    (slotReused.foldl Sys.step (Sys.start sample)).gen 1 = 3 ∧ 1 < sampleLayout.rde ∧
    Live (((slotReused.foldl Sys.step (Sys.start sample)).vol.view sampleLayout).dir 1) ∧
    ((((slotReused.foldl Sys.step (Sys.start sample)).step (.write 0 1 1 fun _ => 3)).vol.view
      sampleLayout).dir 1).filename 0 ≠
      (((slotReused.foldl Sys.step (Sys.start sample)).vol.view sampleLayout).dir 1).filename 0 := by
  decide +kernel

theorem clusterReused_facts :
    ((clusterReused.foldl Sys.step (Sys.start sample)).file 0).map (·.desc.root_dir_slot) = some 1 ∧
    2 < sampleLayout.rde ∧ sampleLayout.InRange 3 ∧
    Live (((clusterReused.foldl Sys.step (Sys.start sample)).vol.view sampleLayout).dir 2) ∧
    fat16_get_first_cluster (((clusterReused.foldl Sys.step (Sys.start sample)).vol.view sampleLayout).dir 2) = 3 ∧
    Eoc (((clusterReused.foldl Sys.step (Sys.start sample)).vol.view sampleLayout).fat 3) ∧
    (((clusterReused.foldl Sys.step (Sys.start sample)).step (.write 0 1 1 fun _ => 3)).vol.view
      sampleLayout).data 3 1 ≠
      ((clusterReused.foldl Sys.step (Sys.start sample)).vol.view sampleLayout).data 3 1 := by
  decide +kernel

theorem sample_not_confined :
    ¬ Along Sys.step (Confined sampleLayout) (slotReused ++ [.write 0 1 1 (fun _ => 3)])
      (Sys.start sample) ∧
    ¬ Along Sys.step (Confined sampleLayout) (clusterReused ++ [.write 0 1 1 (fun _ => 3)])
      (Sys.start sample) := by
  refine ⟨fun h => ?_, fun h => ?_⟩
  · -- The entry of the second file gets the name of the first.
    have hlast := along_last _ _ _ _ h
    obtain ⟨hborn, hgen, hlt, hlive, hname⟩ := slotReused_facts
    obtain ⟨f, hfile, hborn⟩ := Option.map_eq_some_iff.mp hborn
    have hu := (hlast f hfile).1 1 hlt hlive (fun ho => by have := ho.2; omega)
    exact hname (congrArg (fun it => it.filename 0) hu.1)
  · -- The write goes to the cluster that the second file has now.
    have hlast := along_last _ _ _ _ h
    obtain ⟨hslot, hlt, hrange, hlive, hfirst, heoc, hbyte⟩ := clusterReused_facts
    obtain ⟨f, hfile, hslot⟩ := Option.map_eq_some_iff.mp hslot
    have hu := (hlast f hfile).1 2 hlt hlive (fun ho => by have := ho.1; omega)
    have hdata := (hu.2 [3] (by rw [hfirst]; exact Or.inr (.last 3 hrange heoc))).2 3 (List.mem_singleton_self 3)
    exact hbyte (congrFun hdata 1)

theorem sample_confined :
    Along Sys.step (Confined sampleLayout)
      [.open_ (cstr [66]) [] .enough, .write 0 1 600 (fun _ => 3), .close 0]
      (Sys.start sample) := by
  refine writes_confined sample_wf sample_small sample sample_ok sample_inv.toChainsOk _
    ⟨trivial, fun f hf => ?_, trivial, trivial⟩
  have hdesc : (((Sys.start sample).step (.open_ (cstr [66]) [] .enough)).file 0).map
      (fun f => (f.desc.root_dir_slot, f.born, fat16_get_first_cluster f.desc.item.item)) =
      some (1, 1, 0) := by decide +kernel
  rw [hf, Option.map_some, Option.some.injEq, Prod.mk.injEq, Prod.mk.injEq] at hdesc
  obtain ⟨hslot, hborn, hfirst⟩ := hdesc
  refine ⟨⟨by rw [hslot]; rfl, ?_⟩, [], Or.inl ⟨hfirst, rfl⟩, fun j _ _ => Or.inr (fun m _ =>
    List.disjoint_nil_left m)⟩
  rw [hslot, hborn]
  decide +kernel

end Fat

end PeachOS
