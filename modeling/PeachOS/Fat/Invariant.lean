import PeachOS.Fat.Volume

/-!
# The chain invariants under the public functions

Each function changes the entry and the clusters of one slot. The invariants survive if the other
live slots are untouched and the slot gets clusters that no other slot has.
-/

open PeachOS.Lib

namespace PeachOS.Fat

variable {L : Layout} {σ σ' σ₀ : View} {slot : Nat} {l l₀ : List Nat}

/-! ## Replacing one slot -/

/-- `l` has no cluster of a live slot other than `slot`. -/
def Apart (L : Layout) (σ : View) (slot : Nat) (l : List Nat) : Prop :=
  ∀ j < L.rde, j ≠ slot → Live (σ.dir j) → ∀ m,
    ClusterList L σ.fat (fat16_get_first_cluster (σ.dir j)) m → l.Disjoint m

/-- The other live slots are untouched, and the other slots keep their entries. -/
structure Replaces (L : Layout) (slot : Nat) (σ σ' : View) : Prop where
  dir : ∀ j, j ≠ slot → σ'.dir j = σ.dir j
  others : ∀ j < L.rde, j ≠ slot → Live (σ.dir j) → Untouched L σ σ' j

theorem replaces_list (hS : L.Small) (hc : ChainsOk L σ) (h : Replaces L slot σ σ') (j : Nat)
    (hj : j < L.rde) (hne : j ≠ slot) (hlive : Live (σ'.dir j)) (m : List Nat)
    (hm : ClusterList L σ'.fat (fat16_get_first_cluster (σ'.dir j)) m) :
    Live (σ.dir j) ∧ ClusterList L σ.fat (fat16_get_first_cluster (σ.dir j)) m := by
  rw [h.dir j hne] at hlive hm
  obtain ⟨m', hm'⟩ := hc.list j hj hlive
  have := (h.others j hj hne hlive).2 m' hm'
  rw [clusterList_unique hS _ _ m m' hm this.1]
  exact ⟨hlive, hm'⟩

theorem chainsOk_replace (hS : L.Small) (hc : ChainsOk L σ) (h : Replaces L slot σ σ')
    (hnew : Live (σ'.dir slot) → ∃ l, ClusterList L σ'.fat (fat16_get_first_cluster (σ'.dir slot)) l ∧
      Apart L σ slot l) : ChainsOk L σ' := by
  have hself : ∀ j < L.rde, j ≠ slot → Live (σ'.dir slot) → Live (σ'.dir j) → ∀ l m,
      ClusterList L σ'.fat (fat16_get_first_cluster (σ'.dir slot)) l →
      ClusterList L σ'.fat (fat16_get_first_cluster (σ'.dir j)) m → l.Disjoint m := by
    intro j hj hne hls hlj l m hl hm
    obtain ⟨l', hl', hap⟩ := hnew hls
    obtain ⟨hlive, hm'⟩ := replaces_list hS hc h j hj hne hlj m hm
    rw [clusterList_unique hS _ _ l l' hl hl']
    exact hap j hj hne hlive m hm'
  refine ⟨?_, ?_⟩
  · intro j hj hlive
    by_cases hne : j = slot
    · subst hne
      obtain ⟨l, hl, -⟩ := hnew hlive
      exact ⟨l, hl⟩
    · rw [h.dir j hne] at hlive ⊢
      obtain ⟨m, hm⟩ := hc.list j hj hlive
      exact ⟨m, ((h.others j hj hne hlive).2 m hm).1⟩
  · intro i hi j hj hij hli hlj l m hl hm
    by_cases his : i = slot
    · subst his
      exact hself j hj (Ne.symm hij) hli hlj l m hl hm
    by_cases hjs : j = slot
    · subst hjs
      exact fun x hx hxm => hself i hi hij hlj hli m l hm hl hxm hx
    obtain ⟨hli', hl'⟩ := replaces_list hS hc h i hi his hli l hl
    obtain ⟨hlj', hm'⟩ := replaces_list hS hc h j hj hjs hlj m hm
    exact hc.apart i hi j hj hij hli' hlj' l m hl' hm'

theorem fatInv_replace (hS : L.Small) (hf : FatInv L σ) (h : Replaces L slot σ σ')
    (hnew : Live (σ'.dir slot) → ∃ l, ClusterList L σ'.fat (fat16_get_first_cluster (σ'.dir slot)) l ∧
      Apart L σ slot l ∧ (σ'.dir slot).filesize.toNat ≤ l.length * L.clusterSize) : FatInv L σ' := by
  refine ⟨chainsOk_replace hS hf.toChainsOk h (fun hl => ?_), ?_⟩
  · obtain ⟨l, h1, h2, -⟩ := hnew hl
    exact ⟨l, h1, h2⟩
  · intro j hj hlive m hm
    by_cases hne : j = slot
    · subst hne
      obtain ⟨l, h1, -, h3⟩ := hnew hlive
      rw [clusterList_unique hS _ _ m l hm h1]
      exact h3
    · obtain ⟨hlive', hm'⟩ := replaces_list hS hf.toChainsOk h j hj hne hlive m hm
      rw [h.dir j hne]
      exact hf.size j hj hlive' m hm'

/-! ## Opening and deleting -/

theorem recycled_replaces (hc : ChainsOk L σ) (it : FatDirectoryItem) (hslot : slot < L.rde)
    (h : Recycled L σ slot it σ') : Replaces L slot σ σ' := by
  obtain ⟨l, hl, rfl⟩ := h
  refine ⟨fun j hj => by simp [hj], fun j hj hne hlive => ⟨by simp [hne], fun m hm => ?_⟩⟩
  -- The freed clusters are not those of another live slot.
  have hdis : ∀ x ∈ m, x ∉ l := by
    rcases hl with ⟨hls, hl⟩ | ⟨-, rfl⟩
    · intro x hx hxl
      exact hc.apart slot hslot j hj (Ne.symm hne) hls hlive l m hl hm hxl hx
    · simp
  refine ⟨clusterList_congr _ _ _ m hm (fun x hx => ?_), fun x hx => rfl⟩
  simp [hdis x hx]

theorem clusterList_zero (fat : Nat → Nat) (c : Nat) (h : c = 0) : ClusterList L fat c [] :=
  Or.inl ⟨h, rfl⟩

/-- An entry without clusters and without bytes. -/
structure Blank (it : FatDirectoryItem) : Prop where
  first : fat16_get_first_cluster it = 0
  size : it.filesize = 0

theorem recycled_entry (it : FatDirectoryItem) (h : Recycled L σ slot it σ') : σ'.dir slot = it := by
  obtain ⟨l, -, rfl⟩ := h
  simp

theorem recycled_chainsOk (hS : L.Small) (hc : ChainsOk L σ) (it : FatDirectoryItem)
    (hslot : slot < L.rde) (h : Recycled L σ slot it σ') (hit : Live it → Blank it) :
    ChainsOk L σ' := by
  refine chainsOk_replace hS hc (recycled_replaces hc it hslot h) (fun hlive => ?_)
  rw [recycled_entry it h] at hlive ⊢
  exact ⟨[], clusterList_zero _ _ (hit hlive).first, fun _ _ _ _ _ _ => List.disjoint_nil_left _⟩

theorem recycled_fatInv (hS : L.Small) (hf : FatInv L σ) (it : FatDirectoryItem)
    (hslot : slot < L.rde) (h : Recycled L σ slot it σ') (hit : Live it → Blank it) : FatInv L σ' := by
  refine fatInv_replace hS hf (recycled_replaces hf.toChainsOk it hslot h) (fun hlive => ?_)
  rw [recycled_entry it h] at hlive ⊢
  refine ⟨[], clusterList_zero _ _ (hit hlive).first, fun _ _ _ _ _ _ => List.disjoint_nil_left _, ?_⟩
  rw [(hit hlive).size]
  exact Nat.zero_le _

theorem blank_emptied (it : FatDirectoryItem) : Blank (emptied it) :=
  ⟨by simp [fat16_get_first_cluster, emptied], rfl⟩

theorem blank_new (name : Nat → UInt8) : Blank (fat16_new_entry name) :=
  ⟨by simp [fat16_get_first_cluster, fat16_new_entry, FatDirectoryItem.zero,
    FatDirectoryItem.ofBytes, le16], rfl⟩

theorem blank_opened (i : Nat) (name : Nat → UInt8) (it : FatDirectoryItem)
    (h : OpenedEntry σ i name it) : Blank it := by
  rcases h with ⟨-, -, rfl⟩ | ⟨-, rfl⟩
  · exact blank_emptied _
  · exact blank_new name

theorem not_live_deleted (it : FatDirectoryItem) : ¬ Live (deleted it) := fun h => h.2.1 rfl

/-! ## Writing -/

theorem grows_untouched (h : Grows σ₀ l₀ σ l) (j : Nat)
    (hd : ∀ m, ClusterList L σ₀.fat (fat16_get_first_cluster (σ₀.dir j)) m → l₀.Disjoint m) :
    Untouched L σ₀ σ j := by
  refine ⟨by rw [h.dir], fun m hm => ?_⟩
  have hout : ∀ x ∈ m, x ∉ l₀ ∧ σ₀.fat x ≠ 0 := fun x hx =>
    ⟨fun hx0 => hd m hm hx0 hx, clusterList_ne_zero _ _ m hm x hx⟩
  exact ⟨clusterList_congr _ _ _ m hm (fun x hx => h.fat x (hout x hx).1 (hout x hx).2),
    fun x hx => h.data x (hout x hx).1 (hout x hx).2⟩

theorem grows_apart (h : Grows σ₀ l₀ σ l) (hap : Apart L σ₀ slot l₀) : Apart L σ₀ slot l := by
  intro j hj hne hlive m hm x hx hxm
  rcases h.fresh x hx with hx0 | hz
  · exact hap j hj hne hlive m hm hx0 hxm
  · exact clusterList_ne_zero _ _ m hm x hxm hz

theorem grows_replaces (h : Grows σ₀ l₀ σ l) (hap : Apart L σ₀ slot l₀) : Replaces L slot σ₀ σ :=
  ⟨fun j _ => by rw [h.dir], fun j hj hne hlive => grows_untouched h j (hap j hj hne hlive)⟩

theorem grows_setDir_replaces (h : Grows σ₀ l₀ σ l) (hap : Apart L σ₀ slot l₀) (it : FatDirectoryItem) :
    Replaces L slot σ₀ (σ.setDir slot it) := by
  refine ⟨fun j hj => by simp [hj, h.dir], fun j hj hne hlive => ?_⟩
  obtain ⟨-, hu⟩ := grows_untouched h j (hap j hj hne hlive)
  exact ⟨by simp [hne, h.dir], hu⟩

end PeachOS.Fat
