import PeachOS.Fat.Table

/-!
# Freeing a chain

`fat16_free_cluster_chain` reads the link of a cluster, zeroes it in both copies and goes on to the
cluster it linked to. On a chain it zeroes exactly the entries of the chain.
-/

open PeachOS.Lib PeachOS.Streamer

namespace PeachOS

/-- Both FAT copies with the entries of `l` zeroed. -/
def View.clear (σ : View) (l : List Nat) : View :=
  { σ with
    fat := fun x => if x ∈ l then 0 else σ.fat x
    mirror := fun x => if x ∈ l then 0 else σ.mirror x }

namespace View

variable (σ : View) (l : List Nat) (x : Nat)

@[simp] theorem clear_fat : (σ.clear l).fat x = if x ∈ l then 0 else σ.fat x := rfl
@[simp] theorem clear_mirror : (σ.clear l).mirror x = if x ∈ l then 0 else σ.mirror x := rfl
@[simp] theorem clear_dir : (σ.clear l).dir = σ.dir := rfl
@[simp] theorem clear_data : (σ.clear l).data = σ.data := rfl
@[simp] theorem clear_nil : σ.clear [] = σ := by simp [View.clear]

theorem clear_cons : σ.clear (x :: l) = (σ.setBoth x 0).clear l := by
  ext1
  · funext y
    by_cases hy : y = x <;> by_cases hl : y ∈ l <;> simp [hy, hl]
  · funext y
    by_cases hy : y = x <;> by_cases hl : y ∈ l <;> simp [hy, hl]
  · rfl
  · rfl

end View

namespace Fat

variable {p : FatPrivate} {L : Layout}

theorem fat16_free_cluster_chain_loop_succ (hm : Mounted p L) (hL : L.Wf) (fuel : Nat) (d : Disk)
    (c : Nat) (hc : L.InRange c) (hlt : c < 0xFFF8) :
    fat16_free_cluster_chain_loop p (fuel + 1) d c =
      if Stop ((L.view d.sector).fat c) then (fat16_set_fat_entry p d c 0).2
      else fat16_free_cluster_chain_loop p fuel (fat16_set_fat_entry p d c 0).2
        ((L.view d.sector).fat c : Nat) := by
  have hgo : (c : Int) ≥ 2 ∧ (c : Int) < fat16EocMin := by
    have := hc.1
    unfold fat16EocMin
    omega
  rw [fat16_free_cluster_chain_loop, if_pos hgo,
    fat16_get_fat_entry_spec hm hL d c (inRange_entries hL c hc)]
  simp only [stop_iff]

theorem fatChain_free (hS : L.Small) (σ : View) (c : Nat) (l : List Nat) (h : FatChain L σ.fat c l) :
    (Stop (σ.fat c) ∧ l = [c]) ∨
      (¬ Stop (σ.fat c) ∧ ∃ m, l = c :: m ∧ FatChain L (σ.setBoth c 0).fat (σ.fat c) m) := by
  cases h with
  | last _ _ hs => exact Or.inl ⟨Or.inr hs, rfl⟩
  | cons _ m _ hn ht =>
    refine Or.inr ⟨?_, m, rfl, chain_congr _ _ ht (fun x hx => ?_)⟩
    · have hnext := chain_ok _ _ ht _ (chain_mem_first _ _ ht)
      have := hnext.1
      have := hnext.2
      unfold Layout.Small at hS
      unfold Stop
      omega
    · have hxc : x ≠ c := fun hxc => hn (hxc ▸ hx)
      rw [View.setBoth_fat, if_neg hxc]

theorem fatChain_first (hS : L.Small) (fat : Nat → Nat) (c : Nat) (l : List Nat)
    (h : FatChain L fat c l) : L.InRange c ∧ c < 0xFFF8 := by
  have hc := chain_ok c l h c (chain_mem_first c l h)
  refine ⟨hc, ?_⟩
  have := hc.2
  unfold Layout.Small at hS
  omega

theorem fat16_free_cluster_chain_loop_spec (hm : Mounted p L) (hL : L.Wf) (hS : L.Small) (fuel : Nat)
    (d : Disk) (c : Nat) (l : List Nat) (h : FatChain L (L.view d.sector).fat c l)
    (hfuel : l.length ≤ fuel) :
    L.view (fat16_free_cluster_chain_loop p fuel d c).sector = (L.view d.sector).clear l ∧
      VSteps L (fun _ => True) d (fat16_free_cluster_chain_loop p fuel d c) := by
  induction fuel generalizing d c l with
  | zero =>
    have := chain_ne_nil c l h
    simp_all
  | succ fuel ih =>
    obtain ⟨hc, hlt⟩ := fatChain_first hS _ c l h
    obtain ⟨e, heq, hview, hsteps⟩ := fat16_set_fat_entry_spec (fun _ => True) hm hL d c 0
      (inRange_entries hL c hc) (by omega) trivial trivial trivial
    rw [fat16_free_cluster_chain_loop_succ hm hL fuel d c hc hlt, heq]
    rcases fatChain_free hS _ c l h with ⟨hstop, rfl⟩ | ⟨hgo, m, rfl, hchain⟩
    · rw [if_pos hstop, View.clear_cons, View.clear_nil]
      exact ⟨hview, hsteps⟩
    · rw [← hview] at hchain
      obtain ⟨hv, hst⟩ := ih e _ m hchain (by simpa using hfuel)
      rw [if_neg hgo, View.clear_cons, ← hview]
      exact ⟨hv, vsteps_trans L _ d e _ hsteps hst⟩

theorem fatChain_length (hS : L.Small) (fat : Nat → Nat) (c : Nat) (l : List Nat)
    (h : FatChain L fat c l) : l.length ≤ L.clusters ∧ l.length ≤ 65536 := by
  have := nodup_length_le l 2 L.clusters (chain_nodup c l h) (fun x hx => by
    have := chain_ok c l h x hx
    exact ⟨this.1, by have := this.2; omega⟩)
  unfold Layout.Small at hS
  omega

theorem i32_inRange (hL : L.Wf) (c : Nat) (hc : L.InRange c) : i32 (c : Int) = c := by
  have := clusters_lt hL
  have := hc.2
  exact i32_of_lt _ (by omega) (by omega)

theorem fat16_free_cluster_chain_spec (hm : Mounted p L) (hL : L.Wf) (hS : L.Small) (d : Disk) (c : Nat)
    (l : List Nat) (h : FatChain L (L.view d.sector).fat c l) :
    L.view (fat16_free_cluster_chain p d c).sector = (L.view d.sector).clear l ∧
      VSteps L (fun _ => True) d (fat16_free_cluster_chain p d c) := by
  unfold fat16_free_cluster_chain
  rw [i32_inRange hL c (chain_ok c l h c (chain_mem_first c l h))]
  exact fat16_free_cluster_chain_loop_spec hm hL hS 65536 d c l h (fatChain_length hS _ c l h).2

end Fat

end PeachOS
