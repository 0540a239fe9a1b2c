import PeachOS.Fat.Sessions

/-!
# Stopping in the middle of a call

The disk writes whole sectors, and the machine can stop after any number of them. A write can be
stopped anywhere. A delete or a truncation of a file with clusters can not: it frees the chain while
the entry still names it.
-/

open PeachOS.Lib PeachOS.Streamer

namespace PeachOS.Fat

variable {L : Layout}

theorem vsteps_crash (Q : View → Prop) (d d' : Disk) (h : VSteps L Q d d') (n : Nat) :
    Q (L.view (crashAt d d' n)) := by
  obtain ⟨-, ws, hw, -, ht⟩ := h
  unfold crashAt
  rw [hw, List.drop_left]
  exact ht n

/-- A write through the only open descriptor, stopped after any number of its sector writes, leaves
the FAT structural invariant and every other live file as they were. -/
theorem fat16_write_crash_safe (hL : L.Wf) (hS : L.Small) (v : Volume) (hv : v.Ok L)
    (hf : FatInv L (v.view L)) (part : Nat → UInt8) (next : List (Nat → UInt8))
    (kzalloc : FatMemory) (v₁ : Volume) (desc₁ : FatFileDescriptor)
    (hopen : fat16_open v part next .write kzalloc = (v₁, .ok desc₁)) (calls : List WriteCall)
    (v₂ : Volume) (desc₂ : FatFileDescriptor) (hcalls : writeAll calls v₁ desc₁ = (v₂, desc₂))
    (size nmemb : Nat) (buf : Nat → UInt8) (n : Nat) :
    FatInv L (L.view (crashAt v₂.disk (fat16_write v₂ desc₂ size nmemb buf).2.1.disk n)) ∧
      ∀ j < L.rde, (j : Int) ≠ desc₂.root_dir_slot → Live ((v₂.view L).dir j) →
        Untouched L (v₂.view L)
          (L.view (crashAt v₂.disk (fat16_write v₂ desc₂ size nmemb buf).2.1.disk n)) j := by
  obtain ⟨-, -, hsole⟩ := sole_open hL hS hv hf part kzalloc v₁ _ hopen
  obtain ⟨slot, hsole, -⟩ := hsole desc₁ rfl
  obtain ⟨m, hm⟩ := sole_writeAll hL hS calls v₁ desc₁ [] hsole
  rw [hcalls] at hm
  obtain ⟨-, hsteps⟩ := sole_write hL hS hm ⟨size, nmemb, buf⟩
  obtain ⟨hinv, hrep⟩ := vsteps_crash _ _ _ hsteps n
  refine ⟨hinv, fun j hj hne hlive => hrep.others j hj (fun h => hne ?_) hlive⟩
  rw [hm.handle, h]

theorem sample_write_crash : FatInv sampleLayout (sampleLayout.view
    (crashAt sampleB.1.disk (fat16_write sampleB.1 sampleB.2 1 700 (fun _ => 7)).2.1.disk 4)) :=
  (fat16_write_crash_safe sample_wf sample_small sample sample_ok sample_inv (cstr [66]) []
    .enough sampleB.1 sampleB.2 sampleB_opens [] sampleB.1 sampleB.2 rfl 1 700 (fun _ => 7) 4).1

/-! ## Deleting and truncating -/

/-- The clusters that following the FAT from `first` visits, free or not. -/
inductive Visits (fat : Nat → Nat) (first : Nat) : Nat → Prop
  | start : 2 ≤ first → Visits fat first first
  | step (x : Nat) : Visits fat first x → ¬ Stop (fat x) → Visits fat first (fat x)

/-- No live entry leads to a free cluster. -/
def Unfreed (L : Layout) (σ : View) : Prop :=
  ∀ i < L.rde, Live (σ.dir i) → ∀ x, Visits σ.fat (fat16_get_first_cluster (σ.dir i)) x → σ.fat x ≠ 0

theorem visits_mem (fat : Nat → Nat) (first : Nat) (l : List Nat) (h : ClusterList L fat first l)
    (x : Nat) (hx : Visits fat first x) : x ∈ l := by
  induction hx with
  | start h2 =>
    rcases h with ⟨h0, -⟩ | h
    · omega
    · exact chain_mem_first _ _ h
  | step x _ hgo ih =>
    rcases h with ⟨-, rfl⟩ | h
    · simp at ih
    · exact chain_closed _ _ h x ih (fun he => hgo (Or.inr he))

theorem unfreed_of_chainsOk (σ : View) (h : ChainsOk L σ) : Unfreed L σ := by
  intro i hi hlive x hx
  obtain ⟨l, hl⟩ := h.list i hi hlive
  exact clusterList_ne_zero _ _ l hl x (visits_mem _ _ l hl x hx)

theorem unfreed_setDir (σ : View) (h : Unfreed L σ) (i : Nat) (it : FatDirectoryItem)
    (hit : fat16_get_first_cluster it = 0) : Unfreed L (σ.setDir i it) := by
  intro j hj hlive x hx
  rw [View.setDir_dir] at hlive hx
  by_cases hji : j = i
  · rw [if_pos hji, hit] at hx
    have := visits_mem (L := L) _ 0 [] (Or.inl ⟨rfl, rfl⟩) x hx
    simp at this
  · rw [if_neg hji] at hlive hx
    exact h j hj hlive x hx

variable {v : Volume}

theorem fat16_free_cluster_chain_first {p : FatPrivate} (hm : Mounted p L) (hL : L.Wf) (hS : L.Small)
    (d : Disk) (c : Nat) (l : List Nat) (h : FatChain L (L.view d.sector).fat c l) :
    ∃ w ws, (fat16_free_cluster_chain p d c).writes = d.writes ++ w :: ws ∧
      L.view (applyWrites [w] d.sector) = (L.view d.sector).setFat c 0 := by
  obtain ⟨hc, hlt⟩ := fatChain_first hS _ c l h
  obtain ⟨e, w1, w2, heq, -, hw, -, hv1, hv2⟩ := fat16_set_fat_entry_writes hm hL d c 0
    (inRange_entries hL c hc) (by omega)
  have hrest : ∃ ws, (fat16_free_cluster_chain p d c).writes = e.writes ++ ws := by
    unfold fat16_free_cluster_chain
    rw [i32_inRange hL c hc, fat16_free_cluster_chain_loop_succ hm hL 65535 d c hc hlt, heq]
    rcases fatChain_free hS _ c l h with ⟨hstop, -⟩ | ⟨hgo, m, rfl, hchain⟩
    · exact ⟨[], by rw [if_pos hstop, List.append_nil]⟩
    · have hlen := (fatChain_length hS _ c _ h).1
      rw [← hv2] at hchain
      obtain ⟨-, -, ws, hws, -⟩ := fat16_free_cluster_chain_loop_spec hm hL hS 65535 e _ m hchain
        (by unfold Layout.Small at hS; simp at hlen; omega)
      exact ⟨ws, by rw [if_neg hgo, hws]⟩
  obtain ⟨ws, hws⟩ := hrest
  refine ⟨w1, w2 :: ws, ?_, hv1⟩
  rw [hws, hw, List.append_assoc]
  rfl

theorem recycle_first (hv : v.Ok L) (hL : L.Wf) (hS : L.Small) (hc : ChainsOk L (v.view L)) (i : Nat)
    (hi : i < L.rde) (hlive : Live ((v.view L).dir i))
    (hne : fat16_get_first_cluster (v.priv.root_directory.item i) ≠ 0) (it : FatDirectoryItem) :
    ¬ Unfreed L (L.view (crashAt v.disk (recycle v i it).disk 1)) := by
  obtain ⟨l, hl⟩ := hc.list i hi hlive
  rw [← hv.synced i hi] at hl
  have hchain : FatChain L (v.view L).fat (fat16_get_first_cluster (v.priv.root_directory.item i)) l := by
    rcases hl with ⟨h0, -⟩ | hl
    · exact absurd h0 hne
    · exact hl
  have h2 := (fatChain_first hS _ _ l hchain).1.1
  obtain ⟨w, ws, hw, hv1⟩ := fat16_free_cluster_chain_first hv.mounted hL hS v.disk _ l hchain
  have hcrash : crashAt v.disk (recycle v i it).disk 1 = applyWrites [w] v.disk.sector := by
    obtain ⟨hview, -⟩ := release_spec hv hL hS _ l hl _ rfl
    obtain ⟨-, -, hst⟩ := fat16_store_entry_spec (ok_of_dir hv _ (by rw [hview, View.clear_dir])) hL i hi
      it
    obtain ⟨-, vs, hvs, -⟩ := hst (fun _ => True) trivial trivial
    unfold crashAt recycle
    rw [hvs]
    simp only [if_pos h2]
    rw [hw, List.append_assoc, List.drop_left]
    rfl
  rw [hcrash, hv1]
  rw [hv.synced i hi] at h2 ⊢
  exact fun h => h i hi hlive _ (.start h2) (if_pos rfl)

/-- The name is not in the root directory, or its entry has no clusters. -/
def NoClusters (p : FatPrivate) (name : Nat → UInt8) : Prop :=
  fat16_find_root_dir_slot_by_name p name < 0 ∨
    fat16_get_first_cluster
      (p.root_directory.item (fat16_find_root_dir_slot_by_name p name).toNat) = 0

theorem crash_same (d : Disk) (n : Nat) : crashAt d d n = d.sector := by
  unfold crashAt
  rw [List.drop_length, List.take_nil]
  rfl

theorem store_crash_safe (hv : v.Ok L) (hL : L.Wf) (hc : ChainsOk L (v.view L)) (i : Nat) (hi : i < L.rde)
    (it : FatDirectoryItem) (hit : fat16_get_first_cluster it = 0) (n : Nat) :
    Unfreed L (L.view (crashAt v.disk (fat16_store_entry v i it).disk n)) := by
  obtain ⟨-, -, hst⟩ := fat16_store_entry_spec hv hL i hi it
  have h0 := unfreed_of_chainsOk _ hc
  exact vsteps_crash _ _ _ (hst (Unfreed L) h0 (unfreed_setDir _ h0 i it hit)) n

theorem recycle_crash_iff (hv : v.Ok L) (hL : L.Wf) (hS : L.Small) (hc : ChainsOk L (v.view L)) (i : Nat)
    (hi : i < L.rde) (hlive : Live ((v.view L).dir i)) (it : FatDirectoryItem)
    (hit : fat16_get_first_cluster it = 0) :
    (∀ n, Unfreed L (L.view (crashAt v.disk (recycle v i it).disk n))) ↔
      fat16_get_first_cluster (v.priv.root_directory.item i) = 0 := by
  constructor
  · intro h
    by_contra hne
    exact recycle_first hv hL hS hc i hi hlive hne it (h 1)
  · intro hz n
    unfold recycle
    simp only [hz, if_neg (show ¬ (0 ≥ 2) by omega)]
    exact store_crash_safe hv hL hc i hi it hit n

/-- Deleting a file, or opening it for writing, can be stopped anywhere exactly if it has no clusters. -/
theorem recycle_crash_safe_iff (hL : L.Wf) (hS : L.Small) (v : Volume) (hv : v.Ok L)
    (hf : FatInv L (v.view L)) (name : Nat → UInt8) (next : List (Nat → UInt8))
    (kzalloc : FatMemory) :
    ((∀ n, Unfreed L (L.view (crashAt v.disk (fat16_delete v name).2.disk n))) ↔
      NoClusters v.priv name) ∧
    ((∀ n, Unfreed L (L.view (crashAt v.disk (fat16_open v name next .write kzalloc).1.disk n))) ↔
      NoClusters v.priv name) := by
  have hc := hf.toChainsOk
  unfold NoClusters fat16_open
  rcases fat16_find_root_dir_slot_by_name_spec hv.mounted name with ⟨i, heq, hi, hlive, -⟩ | ⟨heq, -⟩
  · rw [hv.synced i hi] at hlive
    have hcond : ((i : Int) < 0 ∨ fat16_get_first_cluster (v.priv.root_directory.item i) = 0) ↔
        fat16_get_first_cluster (v.priv.root_directory.item i) = 0 :=
      or_iff_right (by omega)
    rw [fat16_delete_found name i heq, fat16_open_write_found name kzalloc i heq, heq,
      Int.toNat_natCast, hcond]
    have hblank := (blank_emptied (v.priv.root_directory.item i)).first
    exact ⟨recycle_crash_iff hv hL hS hc i hi hlive _ hblank,
      recycle_crash_iff hv hL hS hc i hi hlive _ hblank⟩
  · have hsame : ∀ n, Unfreed L (L.view (crashAt v.disk v.disk n)) := fun n => by
      rw [crash_same]
      exact unfreed_of_chainsOk _ hc
    rw [fat16_delete_missing name heq]
    refine ⟨⟨fun _ => Or.inl (by omega), fun _ => hsame⟩, fun _ => Or.inl (by omega), fun _ n => ?_⟩
    rcases fat16_find_free_root_dir_slot_spec hv.mounted with ⟨i, heq', hi, -, -⟩ | ⟨heq', -⟩
    · rw [fat16_open_write_new name kzalloc i heq heq']
      have hdisk : (fat16_open_create v i name).disk =
          (fat16_store_entry v i (fat16_new_entry name)).disk := by
        simp only [fat16_open_create]
        split <;> rfl
      show Unfreed L (L.view (crashAt v.disk (fat16_open_create v i name).disk n))
      rw [hdisk]
      exact store_crash_safe hv hL hc i hi _ (blank_new name).first n
    · rw [fat16_open_write_full name kzalloc heq heq']
      exact hsame n

/-- The entry in slot 0 is live, and its first cluster is free. -/
def FirstFreed (σ : View) : Prop :=
  Live (σ.dir 0) ∧ 2 ≤ fat16_get_first_cluster (σ.dir 0) ∧ σ.fat (fat16_get_first_cluster (σ.dir 0)) = 0

instance (σ : View) : Decidable (FirstFreed σ) := inferInstanceAs (Decidable (_ ∧ _ ∧ _))

theorem not_unfreed (L : Layout) (σ : View) (h0 : 0 < L.rde) (h : FirstFreed σ) : ¬ Unfreed L σ := by
  obtain ⟨hlive, hfirst, hzero⟩ := h
  intro hu
  exact hu 0 h0 hlive _ (.start hfirst) hzero

theorem sample_first_freed : 0 < sampleLayout.rde ∧
    FirstFreed (sampleLayout.view (crashAt sample.disk (fat16_delete sample (cstr [65])).2.disk 1)) ∧
    FirstFreed (sampleLayout.view (crashAt sample.disk
      (fat16_open sample (cstr [65]) [] .write .enough).1.disk 1)) := by
  decide +kernel

/-- Stopped after the first sector write, both leave the entry of `A` with a free cluster. -/
theorem sample_recycle_crash :
    FatInv sampleLayout (sample.view sampleLayout) ∧
    ¬ Unfreed sampleLayout (sampleLayout.view
      (crashAt sample.disk (fat16_delete sample (cstr [65])).2.disk 1)) ∧
    ¬ Unfreed sampleLayout (sampleLayout.view (crashAt sample.disk
      (fat16_open sample (cstr [65]) [] .write .enough).1.disk 1)) := by
  obtain ⟨h0, hdelete, hopen⟩ := sample_first_freed
  exact ⟨sample_inv, not_unfreed _ _ h0 hdelete, not_unfreed _ _ h0 hopen⟩

theorem sample_no_clusters :
    NoClusters sample.priv (cstr [66]) ∧ ∀ n, Unfreed sampleLayout (sampleLayout.view
      (crashAt sample.disk (fat16_open sample (cstr [66]) [] .write .enough).1.disk n)) := by
  have h : NoClusters sample.priv (cstr [66]) := Or.inl (by decide +kernel)
  exact ⟨h, (recycle_crash_safe_iff sample_wf sample_small sample sample_ok sample_inv (cstr [66]) []
    .enough).2.mpr h⟩

end PeachOS.Fat
