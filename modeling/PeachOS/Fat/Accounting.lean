import PeachOS.Fat.Sessions
import PeachOS.Spec.Accounting

/-!
# Clusters and bytes that are accounted for

A write runs out of clusters exactly if the file and the free clusters together are not enough. The clusters that it
took are in the chain of the file, but a file that had none gets its first cluster into its entry only if the write
succeeds.
-/

open PeachOS.Lib PeachOS.Streamer

namespace PeachOS.Fat

variable {p : FatPrivate} {L : Layout} {σ₀ σ : View} {l₀ l : List Nat} {v : Volume} {desc : FatFileDescriptor}
  {slot : Nat} {v' : Volume} {desc' : FatFileDescriptor} {total : Nat} {buf : Nat → UInt8} {m : List Nat}

/-! ## Counting -/

@[simp] theorem mem_freeClusters (c : Nat) : c ∈ freeClusters L σ ↔ L.InRange c ∧ σ.fat c = 0 := by
  unfold freeClusters Layout.InRange
  rw [List.mem_filter, List.mem_range'_1, decide_eq_true_iff, Nat.add_comm 2]

theorem freeClusters_nodup (L : Layout) (σ : View) : (freeClusters L σ).Nodup :=
  (List.nodup_range').filter _

theorem full_iff : Full L σ ↔ freeClusters L σ = [] := by
  rw [List.eq_nil_iff_forall_not_mem]
  constructor
  · intro h c hc
    rw [mem_freeClusters] at hc
    exact h c hc.1 hc.2
  · intro h c hc hz
    exact h c (by rw [mem_freeClusters]; exact ⟨hc, hz⟩)

theorem grown_length_le (f : Nat) (hl : FatChain L σ.fat f l) (h : Grows σ₀ l₀ σ l) :
    l.length ≤ l₀.length + (freeClusters L σ₀).length := by
  have hsub : l ⊆ l₀ ++ freeClusters L σ₀ := by
    intro c hc
    rcases h.fresh c hc with h0 | hz
    · exact List.mem_append_left _ h0
    · exact List.mem_append_right _ ((mem_freeClusters c).mpr ⟨chain_ok f l hl c hc, hz⟩)
  have := (List.subperm_of_subset (chain_nodup f l hl) hsub).length_le
  rwa [List.length_append] at this

theorem grown_length_full (first : Nat) (hl₀ : ClusterList L σ₀.fat first l₀) (hd : l₀.Nodup) (h : Grows σ₀ l₀ σ l)
    (ha : Accounted L σ₀ σ l) (hfull : Full L σ) : l₀.length + (freeClusters L σ₀).length ≤ l.length := by
  have hsub : l₀ ++ freeClusters L σ₀ ⊆ l := by
    intro c hc
    rcases List.mem_append.mp hc with h0 | hfree
    · exact h.pre.subset h0
    · rw [mem_freeClusters] at hfree
      exact (ha c hfree.1 (hfull c hfree.1)).resolve_right fun hne => hne hfree.2
  have hnd : (l₀ ++ freeClusters L σ₀).Nodup := by
    refine List.nodup_append.mpr ⟨hd, freeClusters_nodup L σ₀, ?_⟩
    rintro c hc d hdm rfl
    rw [mem_freeClusters] at hdm
    exact clusterList_ne_zero _ _ l₀ hl₀ c hc hdm.2
  have := (List.subperm_of_subset hnd hsub).length_le
  rwa [List.length_append] at this

theorem needed_gt (hcs : 0 < L.clusterSize) (n pos total : Nat)
    (h : n * L.clusterSize ≤ pos ∨ n * L.clusterSize < pos + total) : n < clustersNeeded L pos total := by
  unfold clustersNeeded
  split
  · have : n ≤ pos / L.clusterSize := (Nat.le_div_iff_mul_le hcs).mpr (by omega)
    omega
  · have : n ≤ (pos + total - 1) / L.clusterSize := (Nat.le_div_iff_mul_le hcs).mpr (by omega)
    omega

theorem needed_le (n pos total : Nat) (h : pos < n * L.clusterSize) (h' : pos + total ≤ n * L.clusterSize) :
    clustersNeeded L pos total ≤ n := by
  unfold clustersNeeded
  split
  · exact Nat.div_lt_of_lt_mul (by rwa [Nat.mul_comm])
  · exact Nat.div_lt_of_lt_mul (by rw [Nat.mul_comm]; omega)

theorem clusterList_nodup (first : Nat) (fat : Nat → Nat) (h : ClusterList L fat first l) : l.Nodup := by
  rcases h with ⟨-, rfl⟩ | h
  · exact List.nodup_nil
  · exact chain_nodup _ _ h

theorem write_internal_fits (hm : Mounted p L) (hL : L.Wf) (hS : L.Small) (d : Disk) (first pos total : Nat)
    (src : Nat → UInt8) (hl : ClusterList L (L.view d.sector).fat first l) (hpos : first = 0 → pos = 0) :
    (fat16_write_internal p d first pos src total).1 =
      if Fits L (L.view d.sector) l pos total then (total : Int) else -ENOMEM := by
  have hcs := clusterSize_pos hL
  obtain ⟨r, f, e, heq, -, hres⟩ := fat16_write_internal_accounts hm hL hS d first pos total src l hl hpos
  rw [heq]
  rcases hres with ⟨hr, hz, -, hfull⟩ | ⟨-, m, hchain, hgrows, hacc, ⟨hr, hfull, hmore⟩ | ⟨hr, hhere, hw⟩⟩
  · have hnil : l = [] := clusterList_unique hS _ first l [] hl (Or.inl ⟨hz, rfl⟩)
    have hneed := needed_gt hcs 0 pos total (Or.inl (by omega))
    have hno : ¬ Fits L (L.view d.sector) l pos total := by
      unfold Fits
      rw [full_iff.mp hfull, hnil]
      exact Nat.not_le.mpr hneed
    rw [if_neg hno]
    exact hr
  · have hlen := grown_length_full first hl (clusterList_nodup first _ hl) hgrows hacc hfull
    have hneed := needed_gt hcs m.length pos total hmore
    have hno : ¬ Fits L (L.view d.sector) l pos total := Nat.not_le.mpr (hlen.trans_lt hneed)
    rw [if_neg hno]
    exact hr
  · have hlen := grown_length_le f hchain hgrows
    have hneed := needed_le m.length pos total hhere hw.room
    have hfits : Fits L (L.view d.sector) l pos total := hneed.trans hlen
    rw [if_pos hfits]
    exact hr

/-! ## A write that fails -/

theorem fat16_write_fits (hv : v.Ok L) (hL : L.Wf) (hS : L.Small) (desc : FatFileDescriptor) (size nmemb : Nat)
    (buf : Nat → UInt8) (hl : ClusterList L (v.view L).fat (fat16_get_first_cluster desc.item.item) l)
    (hpos : fat16_get_first_cluster desc.item.item = 0 → desc.pos = 0) :
    (fat16_write v desc size nmemb buf).1 =
      if Fits L (v.view L) l desc.pos (u32 (size * nmemb)) then i32 nmemb else -ENOMEM := by
  have hfits := write_internal_fits hv.mounted hL hS v.disk _ desc.pos (u32 (size * nmemb)) buf hl hpos
  unfold fat16_write
  dsimp only
  rw [hfits]
  change _ = if Fits L (L.view v.disk.sector) l desc.pos (u32 (size * nmemb)) then _ else _
  split
  · rw [if_neg (by omega), apply_ite Prod.fst, ite_self]
  · rfl

theorem fat16_write_short (hL : L.Wf) (hS : L.Small) (h : Sole L v desc slot l) (size nmemb : Nat)
    (buf : Nat → UInt8) (hno : ¬ Fits L (v.view L) l desc.pos (u32 (size * nmemb))) :
    ∃ e f, fat16_write v desc size nmemb buf = (-ENOMEM, { v with disk := e }, desc) ∧
      Volume.Ok { v with disk := e } L ∧
      ((fat16_get_first_cluster desc.item.item = 0 ∧ e = v.disk ∧ Full L (v.view L)) ∨
        ((fat16_get_first_cluster desc.item.item ≠ 0 → f = fat16_get_first_cluster desc.item.item) ∧
          ∃ m, FatChain L (L.view e.sector).fat f m ∧ Grows (v.view L) l (L.view e.sector) m ∧
            Accounted L (v.view L) (L.view e.sector) m)) := by
  have hfits := write_internal_fits h.ok.mounted hL hS v.disk _ desc.pos (u32 (size * nmemb)) buf h.list h.start
  obtain ⟨r, f, e, heq, hsteps, hres⟩ := fat16_write_internal_accounts h.ok.mounted hL hS v.disk
    (fat16_get_first_cluster desc.item.item) desc.pos (u32 (size * nmemb)) buf l h.list h.start
  have hr : r = -ENOMEM := by
    rw [heq] at hfits
    exact hfits.trans (if_neg hno)
  subst hr
  have hdir : (L.view e.sector).dir = (v.view L).dir := by
    obtain ⟨m, -, hg⟩ := vsteps_last L _ _ _ hsteps
    exact hg.dir
  refine ⟨e, f, ?_, ok_of_dir h.ok e hdir, ?_⟩
  · simp only [fat16_write, heq]
    rfl
  · rcases hres with ⟨-, hz, he, hfull⟩ | ⟨hf, m, hchain, hgrows, hacc, -⟩
    · exact Or.inl ⟨hz, he, hfull⟩
    · exact Or.inr ⟨hf, m, hchain, hgrows, hacc⟩

theorem sole_live (h : Sole L v desc slot l) (ho : Owned L (v.view L)) (c : Nat) (hc : c ∈ l) :
    Live ((v.view L).dir slot) := by
  obtain ⟨i, hi, hlive, k, hk, hck⟩ := ho c (clusterList_inRange _ _ l h.list c hc)
    (clusterList_ne_zero _ _ l h.list c hc)
  -- an entry of another slot would not be apart from the list
  by_cases hne : i = slot
  · exact hne ▸ hlive
  · exact absurd hck (h.apart i hi hne hlive k hk hc)

theorem owned_grown (hS : L.Small) (h : Sole L v desc slot l) (ho : Owned L (v.view L)) (m : List Nat)
    (hm : ClusterList L σ.fat (fat16_get_first_cluster desc.item.item) m) (hg : Grows (v.view L) l σ m)
    (ha : Accounted L (v.view L) σ m) (hlive : m ≠ [] → Live ((v.view L).dir slot)) : Owned L σ := by
  have hmine : ∀ c ∈ m, ∃ i < L.rde, Live (σ.dir i) ∧
      ∃ l, ClusterList L σ.fat (fat16_get_first_cluster (σ.dir i)) l ∧ c ∈ l := by
    intro c hc
    have hslot := hlive (List.ne_nil_of_mem hc)
    rw [← h.entry] at hm
    rw [hg.dir]
    exact ⟨slot, h.lt, hslot, m, hm, hc⟩
  intro c hc hne
  rcases ha c hc hne with hcm | hne₀
  · exact hmine c hcm
  · obtain ⟨i, hi, hli, k, hk, hck⟩ := ho c hc hne₀
    by_cases his : i = slot
    · rw [his, h.entry] at hk
      rw [clusterList_unique hS _ _ k l hk h.list] at hck
      exact hmine c (hg.pre.subset hck)
    · obtain ⟨-, hkept⟩ := (grows_replaces hg h.apart).others i hi his hli
      rw [hg.dir]
      exact ⟨i, hi, hli, k, (hkept k hk).1, hck⟩

theorem freed_grown (hL : L.Wf) (hS : L.Small) (h : Sole L v desc slot l) (v' : Volume) (hok : v'.Ok L) (m : List Nat)
    (hm : ClusterList L (v'.view L).fat (fat16_get_first_cluster desc.item.item) m)
    (hg : Grows (v.view L) l (v'.view L) m) (ha : Accounted L (v.view L) (v'.view L) m) (part : Nat → UInt8)
    (hfind : fat16_find_root_dir_slot_by_name v'.priv part = slot) (c : Nat) (hc : L.InRange c) :
    ((fat16_delete v' part).2.view L).fat c = 0 ↔ (v.view L).fat c = 0 ∨ c ∈ l := by
  obtain ⟨hinv, -⟩ := sole_safe hS h _ ⟨m, hm, hg⟩
  have hentry : (v'.view L).dir slot = desc.item.item := by rw [hg.dir, h.entry]
  have hlive : Live ((v'.view L).dir slot) := by
    rcases fat16_find_root_dir_slot_by_name_spec hok.mounted part with ⟨i, heq, hi, hl, -⟩ | ⟨heq, -⟩
    · have : i = slot := by omega
      rw [← hok.synced slot h.lt, ← this]
      exact hl
    · omega
  obtain ⟨-, ⟨k, hk, hview⟩, -⟩ := recycle_spec hok hL hS hinv.toChainsOk slot h.lt hlive
    (deleted (v'.priv.root_directory.item slot))
  have hkm : k = m := by
    rcases hk with ⟨-, hk⟩ | ⟨hfree, -⟩
    · rw [hentry] at hk
      exact clusterList_unique hS _ _ k m hk hm
    · exact absurd hlive (not_live_of_freeSlot _ hfree)
  rw [fat16_delete_found part slot hfind, hview, hkm, View.setDir_fat, View.clear_fat]
  split
  · rename_i hcm
    exact ⟨fun _ => (hg.fresh c hcm).symm, fun _ => rfl⟩
  · rename_i hcm
    constructor
    · intro hz
      by_contra hno
      rw [not_or] at hno
      rw [hg.fat c hno.2 hno.1] at hz
      exact hno.1 hz
    · rintro (hz | hcl)
      · by_contra hne
        exact (ha c hc hne).elim hcm fun h0 => h0 hz
      · exact absurd (hg.pre.subset hcl) hcm

theorem leaksNothing_grown (hL : L.Wf) (hS : L.Small) (h : Sole L v desc slot l) (ho : Owned L (v.view L))
    (v' : Volume) (hok : v'.Ok L) (m : List Nat)
    (hm : ClusterList L (v'.view L).fat (fat16_get_first_cluster desc.item.item) m)
    (hg : Grows (v.view L) l (v'.view L) m) (ha : Accounted L (v.view L) (v'.view L) m) :
    LeaksNothing L v v' slot l := by
  refine ⟨owned_grown hS h ho m hm hg ha fun hne => ?_, freed_grown hL hS h v' hok m hm hg ha⟩
  -- The chain does not start from nothing.
  rcases h.list with ⟨hz, -⟩ | hl
  · exact absurd (clusterList_unique hS _ _ m [] hm (Or.inl ⟨hz, rfl⟩)) hne
  · exact sole_live h ho _ (chain_mem_first _ _ hl)

theorem grown_from_none (hS : L.Small) (h : Sole L v desc slot l) (hz : fat16_get_first_cluster desc.item.item = 0)
    (m : List Nat) (hg : Grows (v.view L) l σ m) (c : Nat) (hc : c ∈ m) : (v.view L).fat c = 0 := by
  have hl : l = [] := clusterList_unique hS _ _ l [] h.list (Or.inl ⟨hz, rfl⟩)
  rcases hg.fresh c hc with hmem | hfree
  · rw [hl] at hmem
    cases hmem
  · exact hfree

theorem not_owned_fresh (hS : L.Small) (h : Sole L v desc slot l)
    (hz : fat16_get_first_cluster desc.item.item = 0) (f : Nat) (m : List Nat) (hm : FatChain L σ.fat f m)
    (hg : Grows (v.view L) l σ m) : ¬ Owned L σ := by
  intro ho
  have hfm := chain_mem_first f m hm
  obtain ⟨i, hi, hlive, k, hk, hfk⟩ := ho f (chain_ok f m hm f hfm) (fatChain_ne_zero _ f m hm f hfm)
  by_cases his : i = slot
  · rw [his, hg.dir, h.entry] at hk
    rw [clusterList_unique hS _ _ k [] hk (Or.inl ⟨hz, rfl⟩)] at hfk
    cases hfk
  · obtain ⟨-, hk₀⟩ := replaces_list hS h.inv.toChainsOk (grows_replaces hg h.apart) i hi his hlive k hk
    exact clusterList_ne_zero _ _ k hk₀ f hfk (grown_from_none hS h hz m hg f hfm)

/-- A write that needs more clusters than there are fails. It leaks nothing exactly if the file had a cluster
before, or if there was no cluster to take. -/
theorem failed_write_leaks_iff (hL : L.Wf) (hS : L.Small) (h : Sole L v desc slot l) (ho : Owned L (v.view L))
    (size nmemb : Nat) (buf : Nat → UInt8) :
    (fat16_write v desc size nmemb buf).1 =
        (if Fits L (v.view L) l desc.pos (u32 (size * nmemb)) then i32 nmemb else -ENOMEM) ∧
      (¬ Fits L (v.view L) l desc.pos (u32 (size * nmemb)) →
        (LeaksNothing L v (fat16_write v desc size nmemb buf).2.1 slot l ↔
          fat16_get_first_cluster desc.item.item ≠ 0 ∨ freeClusters L (v.view L) = [])) := by
  refine ⟨fat16_write_fits h.ok hL hS desc size nmemb buf h.list h.start, fun hno => ?_⟩
  obtain ⟨e, f, heq, hok, hcase⟩ := fat16_write_short hL hS h size nmemb buf hno
  rw [heq]
  rcases hcase with ⟨-, rfl, hfull⟩ | ⟨hf, m, hchain, hg, ha⟩
  · have hleak := leaksNothing_grown hL hS h ho v h.ok l h.list (grows_refl _ l) (accounted_refl _ l)
    exact ⟨fun _ => Or.inr (full_iff.mp hfull), fun _ => hleak⟩
  · constructor
    · intro hleak
      by_contra hno'
      rw [not_or, not_not] at hno'
      exact not_owned_fresh hS h hno'.1 f m hchain hg hleak.owned
    · intro hgood
      by_cases hz : fat16_get_first_cluster desc.item.item = 0
      · -- Nothing was free, but the chain has got a first cluster.
        have hfull := full_iff.mpr (hgood.resolve_left fun hne => hne hz)
        have hfm := chain_mem_first f m hchain
        exact absurd (grown_from_none hS h hz m hg f hfm) (hfull f (chain_ok f m hchain f hfm))
      · rw [hf hz] at hchain
        exact leaksNothing_grown hL hS h ho _ hok m (Or.inr hchain) hg ha

/-- A descriptor for writing on the file `A` of the small volume. -/
def sampleWriter : FatFileDescriptor := ⟨⟨.file, (sample.view sampleLayout).dir 0, none⟩, 0, 0⟩

/-- Three clusters are free, and the fourth belongs to `A`. -/
def ThreeFree (v : Volume) : Prop :=
  freeClusters sampleLayout (v.view sampleLayout) = [3, 4, 5] ∧ Live ((v.view sampleLayout).dir 0) ∧
    fat16_get_first_cluster ((v.view sampleLayout).dir 0) = 2 ∧ (v.view sampleLayout).fat 2 = 0xFFFF

instance (v : Volume) : Decidable (ThreeFree v) := inferInstanceAs (Decidable (_ ∧ _ ∧ _ ∧ _))

theorem threeFree_owned (h : ThreeFree v) : Owned sampleLayout (v.view sampleLayout) := by
  obtain ⟨hfree, hlive, hfirst, hend⟩ := h
  intro c hc hne
  have hmem : c ∉ freeClusters sampleLayout (v.view sampleLayout) := by
    rw [mem_freeClusters]
    exact fun hz => hne hz.2
  rw [hfree] at hmem
  have hlt := hc.2
  have hge := hc.1
  rw [sampleLayout_eq] at hlt
  simp at hmem hlt
  obtain rfl : c = 2 := by omega
  refine ⟨0, by rw [sampleLayout_eq]; decide, hlive, [2], Or.inr ?_, List.mem_singleton_self 2⟩
  rw [hfirst]
  exact .last 2 hc (by rw [hend]; decide)

theorem sample_threeFree : ThreeFree sample ∧ ThreeFree sampleB.1 ∧ sampleB.2.root_dir_slot = 1 := by
  decide +kernel

theorem sampleWriter_sole : Sole sampleLayout sample sampleWriter 0 [2] := by
  have hrde : sampleLayout.rde = 16 := by rw [sampleLayout_eq]
  have hcs : sampleLayout.clusterSize = 512 := by rw [sampleLayout_eq]; rfl
  refine ⟨sample_ok, sample_inv, by omega, rfl, rfl, Or.inr sample_list, ?_, ?_, fun _ => rfl⟩
  · intro j hj hne hlive
    exact absurd (sample_live j (by omega) hlive) hne
  · rw [hcs]
    show ((sample.view sampleLayout).dir 0).filesize.toNat ≤ 512
    rw [sample_file.2.2]
    decide

theorem sampleB_sole : Sole sampleLayout sampleB.1 sampleB.2 1 [] ∧
    fat16_get_first_cluster sampleB.2.item.item = 0 ∧ sampleB.2.pos = 0 := by
  obtain ⟨-, -, hopen⟩ := sole_open sample_wf sample_small sample_ok sample_inv (cstr [66]) .enough _ _
    sampleB_opens
  obtain ⟨slot, hsole, hop, hblank, -⟩ := hopen _ rfl
  have hslot : slot = 1 := by
    have := hop.slot
    rw [sample_threeFree.2.2] at this
    omega
  rw [← hslot]
  exact ⟨hsole, hblank.first, hop.pos⟩

theorem sampleWriter_fails : (fat16_write sample sampleWriter 1 2049 fun _ => 7).1 = -ENOMEM ∧
    LeaksNothing sampleLayout sample (fat16_write sample sampleWriter 1 2049 fun _ => 7).2.1 0 [2] := by
  have hno : ¬ Fits sampleLayout (sample.view sampleLayout) [2] sampleWriter.pos (u32 ((1 : Nat) * (2049 : Nat))) := by
    unfold Fits
    rw [sample_threeFree.1.1, sampleLayout_eq]
    decide
  have hfirst : fat16_get_first_cluster sampleWriter.item.item ≠ 0 := by
    show fat16_get_first_cluster ((sample.view sampleLayout).dir 0) ≠ 0
    rw [sample_file.1]
    decide
  obtain ⟨hres, hleak⟩ := failed_write_leaks_iff sample_wf sample_small sampleWriter_sole
    (threeFree_owned sample_threeFree.1) 1 2049 fun _ => 7
  exact ⟨hres.trans (if_neg hno), (hleak hno).mpr (Or.inl hfirst)⟩

/-- The new file `B` has no cluster. A write of 1537 bytes takes the three free clusters, and they are lost. -/
theorem sampleB_leaks : Sole sampleLayout sampleB.1 sampleB.2 1 [] ∧ Owned sampleLayout (sampleB.1.view sampleLayout) ∧
    (fat16_write sampleB.1 sampleB.2 1 1537 fun _ => 7).1 = -ENOMEM ∧
    ((fat16_write sampleB.1 sampleB.2 1 1537 fun _ => 7).2.1.view sampleLayout).fat 3 = 4 ∧
    ¬ Owned sampleLayout ((fat16_write sampleB.1 sampleB.2 1 1537 fun _ => 7).2.1.view sampleLayout) := by
  obtain ⟨hsole, hz, hpos⟩ := sampleB_sole
  have hno : ¬ Fits sampleLayout (sampleB.1.view sampleLayout) [] sampleB.2.pos (u32 ((1 : Nat) * (1537 : Nat))) := by
    unfold Fits
    rw [sample_threeFree.2.1.1, sampleLayout_eq, hpos]
    decide
  have htaken : ((fat16_write sampleB.1 sampleB.2 1 1537 fun _ => 7).2.1.view sampleLayout).fat 3 = 4 := by
    decide +kernel
  obtain ⟨e, f, heq, -, hcase⟩ := fat16_write_short sample_wf sample_small hsole 1 1537 (fun _ => 7) hno
  refine ⟨hsole, threeFree_owned sample_threeFree.2.1, by rw [heq], htaken, ?_⟩
  rw [heq]
  rcases hcase with ⟨-, -, hfull⟩ | ⟨-, m, hchain, hg, -⟩
  · rw [full_iff, sample_threeFree.2.1.1] at hfull
    cases hfull
  · exact not_owned_fresh sample_small hsole hz f m hchain hg

/-! ## A write that succeeds -/

end PeachOS.Fat
