import PeachOS.Fat.Table

/-!
# The loops of `fat16_write_internal`

The walk along the chain and the copy loop change the volume in three ways only: they follow a
link, they extend the chain by a free cluster, and they fill part of a cluster. An invariant that
survives the three holds when `fat16_write_internal` returns, and the views on the way satisfy what
the invariant promises about them.
-/

open PeachOS.Lib PeachOS.Streamer

namespace PeachOS.Fat

/-- An invariant of the loops. `I k c w σ` is about the state where the loops stand at cluster `c`,
the `k`-th of the chain, after `w` of the `total` bytes. `Q` is about every view on the way. -/
structure WriteInv (L : Layout) (pos total : Nat) (src : Nat → UInt8) (Q : View → Prop)
    (I : Nat → Nat → Nat → View → Prop) : Prop where
  range : ∀ k c w σ, I k c w σ → L.InRange c
  safe : ∀ k c w σ, I k c w σ → Q σ
  follow : ∀ k c w σ, I k c w σ → ¬ Stop (σ.fat c) → I (k + 1) (σ.fat c) w σ
  extend : ∀ k c w σ n, I k c w σ → Stop (σ.fat c) → L.InRange n → σ.fat n = 0 →
    Q (σ.setFat n fat16Eoc) ∧ Q (σ.setBoth n fat16Eoc) ∧
    Q ((σ.setBoth n fat16Eoc).setFat c (n % 65536)) ∧
    I (k + 1) n w ((σ.setBoth n fat16Eoc).setBoth c (n % 65536))
  data : ∀ k c w σ off n, I k c w σ → k * L.clusterSize + off = pos + w →
    off + n ≤ L.clusterSize → w + n ≤ total →
    (∀ m ≤ n, Q (σ.setData c off m fun i => src (w + i))) ∧
    I k c (w + n) (σ.setData c off n fun i => src (w + i))

/-- The invariant holds after the loops, and they either ran out of clusters or wrote everything. -/
def Wrote (L : Layout) (pos total : Nat) (I : Nat → Nat → Nat → View → Prop) (r : Int) (σ : View) :
    Prop :=
  ∃ k c w, I k c w σ ∧
    (r = -ENOMEM ∨ (r = i32 total ∧ w = total ∧ pos + total ≤ (k + 1) * L.clusterSize))

/-- The same, and why: the loops stopped at the end of the chain with no free cluster, before they were done, or
they wrote everything and stand at the last cluster they needed. -/
def Ended (L : Layout) (pos total : Nat) (I : Nat → Nat → Nat → View → Prop) (r : Int) (σ : View) : Prop :=
  ∃ k c w, I k c w σ ∧
    ((r = -ENOMEM ∧ Stop (σ.fat c) ∧ Full L σ ∧
        ((k + 1) * L.clusterSize ≤ pos ∨ (k + 1) * L.clusterSize < pos + total)) ∨
      (r = i32 total ∧ w = total ∧ pos + total ≤ (k + 1) * L.clusterSize ∧ pos < (k + 1) * L.clusterSize))

variable {p : FatPrivate} {L : Layout} {pos total : Nat} {src : Nat → UInt8} {Q : View → Prop}
variable {I : Nat → Nat → Nat → View → Prop}

theorem wrote_of_ended (r : Int) (σ : View) (h : Ended L pos total I r σ) : Wrote L pos total I r σ := by
  obtain ⟨k, c, w, hI, hr⟩ := h
  refine ⟨k, c, w, hI, ?_⟩
  rcases hr with ⟨hr, -⟩ | ⟨hr, hw, hle, -⟩
  · exact Or.inl hr
  · exact Or.inr ⟨hr, hw, hle⟩

theorem fat16_next_cluster_spec (hm : Mounted p L) (hL : L.Wf) (hI : WriteInv L pos total src Q I)
    (d : Disk) (k c w : Nat) (h : I k c w (L.view d.sector)) :
    (fat16_next_cluster p d c = (-ENOMEM, d) ∧ Stop ((L.view d.sector).fat c) ∧ Full L (L.view d.sector)) ∨
    ∃ (n : Nat) (e : Disk), fat16_next_cluster p d c = ((n : Int), e) ∧
      I (k + 1) n w (L.view e.sector) ∧ VSteps L Q d e := by
  have hc := hI.range _ _ _ _ h
  have h0 := hI.safe _ _ _ _ h
  unfold fat16_next_cluster
  rw [fat16_get_fat_entry_spec hm hL d c (inRange_entries hL c hc)]
  by_cases hs : Stop ((L.view d.sector).fat c)
  · simp only [if_pos ((stop_iff _).mpr hs)]
    rcases fat16_alloc_cluster_linked Q hm hL d c hc h0 (fun n hn hz => by
      obtain ⟨h1, h2, h3, h4⟩ := hI.extend k c w _ n h hs hn hz
      exact ⟨h1, h2, h3, hI.safe _ _ _ _ h4⟩) with ⟨heq, hfull⟩ | ⟨n, e, heq, hn, hz, hview, hsteps⟩
    · exact Or.inl ⟨heq, hs, hfull⟩
    · refine Or.inr ⟨n, e, heq, ?_, hsteps⟩
      rw [hview]
      exact (hI.extend k c w _ n h hs hn hz).2.2.2
  · simp only [if_neg (fun hx => hs ((stop_iff _).mp hx))]
    exact Or.inr ⟨_, d, rfl, hI.follow k c w _ h hs, vsteps_refl L Q d h0⟩

theorem fat16_walk_spec (hm : Mounted p L) (hL : L.Wf) (hI : WriteInv L pos total src Q I) (n : Nat)
    (d : Disk) (k c w : Nat) (h : I k c w (L.view d.sector)) :
    ∃ (r : Int) (e : Disk) (k' c' : Nat), fat16_walk p n d c = (r, e) ∧
      I k' c' w (L.view e.sector) ∧ VSteps L Q d e ∧
      ((r = -ENOMEM ∧ Stop ((L.view e.sector).fat c') ∧ Full L (L.view e.sector) ∧ k' < k + n) ∨
        (r = c' ∧ k' = k + n)) := by
  induction n generalizing d k c with
  | zero => exact ⟨c, d, k, c, rfl, h, vsteps_refl L Q d (hI.safe _ _ _ _ h), Or.inr ⟨rfl, rfl⟩⟩
  | succ n ih =>
    rw [fat16_walk]
    rcases fat16_next_cluster_spec hm hL hI d k c w h with ⟨heq, hs, hfull⟩ | ⟨m, e, heq, hnext, hsteps⟩
    · refine ⟨-ENOMEM, d, k, c, ?_, h, vsteps_refl L Q d (hI.safe _ _ _ _ h),
        Or.inl ⟨rfl, hs, hfull, by omega⟩⟩
      simp only [heq]
      rfl
    · obtain ⟨r, f, k', c', hwalk, hend, hsteps', hr⟩ := ih e (k + 1) m hnext
      refine ⟨r, f, k', c', ?_, hend, vsteps_trans L Q d e f hsteps hsteps', ?_⟩
      · simp only [heq, if_neg (show ¬ ((m : Int) < 0) by omega), hwalk]
      · rcases hr with ⟨hr, hs, hfull, hk⟩ | ⟨hr, hk⟩
        · exact Or.inl ⟨hr, hs, hfull, by omega⟩
        · exact Or.inr ⟨hr, by omega⟩

theorem fat16_cluster_size_eq (hm : Mounted p L) : fat16_cluster_size p = L.clusterSize := by
  unfold fat16_cluster_size Layout.clusterSize
  rw [hm.spc]

theorem clusterSize_pos (hL : L.Wf) : 0 < L.clusterSize := by
  have := hL.spc_pos
  unfold Layout.clusterSize
  omega

theorem space_eq (hm : Mounted p L) (off : Nat) (hoff : off ≤ L.clusterSize) :
    u32 ((fat16_cluster_size p : Int) - off) = L.clusterSize - off := by
  rw [fat16_cluster_size_eq hm]
  have hspc := p.header.sectors_per_cluster.toNat_lt
  rw [hm.spc] at hspc
  unfold Layout.clusterSize at *
  unfold u32
  omega

theorem fat16_copy_spec (hm : Mounted p L) (hL : L.Wf) (hI : WriteInv L pos total src Q I) (fuel : Nat)
    (d : Disk) (k c off w : Nat) (h : I k c w (L.view d.sector))
    (hpos : k * L.clusterSize + off = pos + w) (hoff : off < L.clusterSize) (hw : w ≤ total)
    (hhere : pos < (k + 1) * L.clusterSize) (hfuel : total - w ≤ fuel) :
    ∃ (r : Int) (e : Disk), fat16_copy p src total fuel d c off w = (r, e) ∧
      VSteps L Q d e ∧ Ended L pos total I r (L.view e.sector) := by
  have hdone : ∀ (d : Disk) (k c off : Nat), I k c total (L.view d.sector) → off ≤ L.clusterSize →
      k * L.clusterSize + off = pos + total → pos < (k + 1) * L.clusterSize → VSteps L Q d d ∧
        Ended L pos total I (i32 total) (L.view d.sector) := by
    intro d k c off h hoff hpos hhere
    refine ⟨vsteps_refl L Q d (hI.safe _ _ _ _ h), k, c, total, h, Or.inr ⟨rfl, rfl, ?_, hhere⟩⟩
    rw [Nat.succ_mul]
    omega
  induction fuel generalizing d k c off w with
  | zero =>
    have hwt : w = total := by omega
    subst hwt
    exact ⟨i32 w, d, rfl, hdone d k c off h (by omega) hpos hhere⟩
  | succ fuel ih =>
    rw [fat16_copy]
    by_cases hlt : w < total
    · simp only [if_pos hlt, space_eq hm off (by omega)]
      obtain ⟨n, hn⟩ : ∃ n, n = if total - w < L.clusterSize - off then total - w
        else L.clusterSize - off := ⟨_, rfl⟩
      have hn0 : 0 < n ∧ n ≤ total - w ∧ off + n ≤ L.clusterSize ∧
          (n < total - w → off + n = L.clusterSize) := by
        rw [hn]
        split <;> omega
      obtain ⟨hQ, hnext⟩ := hI.data k c w _ off n h hpos hn0.2.2.1 (by omega)
      obtain ⟨e, heq, hview, hsteps⟩ := fat16_write_cluster_data_spec Q hm hL d c off
        (fun i => src (w + i)) n (hI.range _ _ _ _ h) hn0.1 hn0.2.2.1 hQ
      rw [← hview] at hnext
      simp only [← hn, heq, lt_self_iff_false, if_false]
      by_cases hmore : w + n < total
      · -- The cluster is full: the next one starts at offset 0.
        simp only [if_pos hmore]
        rcases fat16_next_cluster_spec hm hL hI e k c (w + n) hnext with
          ⟨heq', hs, hfull⟩ | ⟨m, f, heq', hm', hsteps'⟩
        · refine ⟨-ENOMEM, e, ?_, hsteps, k, c, w + n, hnext, Or.inl ⟨rfl, hs, hfull, Or.inr ?_⟩⟩
          swap
          · rw [Nat.succ_mul]
            omega
          simp only [heq']
          rfl
        · obtain ⟨r, g, hcopy, hsteps'', hwrote⟩ := ih f (k + 1) m 0 (w + n) hm'
            (by rw [Nat.succ_mul]; omega) (clusterSize_pos hL) (by omega)
            (by rw [Nat.succ_mul]; omega) (by omega)
          refine ⟨r, g, ?_, vsteps_trans L Q d e g hsteps (vsteps_trans L Q e f g hsteps' hsteps''),
            hwrote⟩
          simp only [heq', if_neg (show ¬ ((m : Int) < 0) by omega), hcopy]
      · have hwt : w + n = total := by omega
        rw [hwt] at hnext
        refine ⟨i32 total, e, ?_, hsteps, (hdone e k c (off + n) hnext hn0.2.2.1 (by omega) hhere).2⟩
        rw [if_neg hmore, hwt]
    · have hwt : w = total := by omega
      subst hwt
      simp only [if_neg hlt]
      exact ⟨i32 w, d, rfl, hdone d k c off h (by omega) hpos hhere⟩

/-- The whole of `fat16_write_internal`. The invariant may depend on the first cluster, which is a
new one if the file has none yet. -/
theorem fat16_write_internal_ended (hm : Mounted p L) (hL : L.Wf)
    (J : Nat → Nat → Nat → Nat → View → Prop) (first : Nat)
    (hJ : ∀ f, (first ≠ 0 → f = first) → WriteInv L pos total src Q (J f)) (d : Disk) (h0 : Q (L.view d.sector))
    (hold : first ≠ 0 → J first 0 first 0 (L.view d.sector))
    (hnew : first = 0 → ∀ n, L.InRange n → (L.view d.sector).fat n = 0 →
      Q ((L.view d.sector).setFat n fat16Eoc) ∧
      J n (pos / L.clusterSize) n 0 ((L.view d.sector).setBoth n fat16Eoc)) :
    ∃ (r : Int) (f : Nat) (e : Disk), fat16_write_internal p d first pos src total = (r, f, e) ∧
      VSteps L Q d e ∧
      ((r = -ENOMEM ∧ first = 0 ∧ e = d ∧ Full L (L.view d.sector)) ∨
        (L.InRange f ∧ (first ≠ 0 → f = first) ∧ Ended L pos total (J f) r (L.view e.sector))) := by
  have hcs := clusterSize_pos hL
  have hdm : pos / L.clusterSize * L.clusterSize + pos % L.clusterSize = pos + 0 := by
    rw [div_mul_add_mod, Nat.add_zero]
  have hmod := Nat.mod_lt pos hcs
  have hhere : pos < (pos / L.clusterSize + 1) * L.clusterSize := by
    rw [Nat.succ_mul]
    omega
  have hcl := clusters_lt hL
  unfold fat16_write_internal
  rw [fat16_cluster_size_eq hm]
  by_cases hf : first = 0
  · simp only [if_pos hf]
    rcases fat16_alloc_cluster_first Q hm hL d h0 (fun n hn hz => by
      obtain ⟨h1, h2⟩ := hnew hf n hn hz
      exact ⟨h1, (hJ n (absurd hf)).safe _ _ _ _ h2⟩) with ⟨heq, hfull⟩ | ⟨n, e, heq, hn, hz, hview, hsteps⟩
    · refine ⟨-ENOMEM, first, d, ?_, vsteps_refl L Q d h0, Or.inl ⟨rfl, hf, rfl, hfull⟩⟩
      simp only [heq]
      rfl
    · have hstart := (hnew hf n hn hz).2
      rw [← hview] at hstart
      obtain ⟨r, g, hcopy, hsteps', hwrote⟩ := fat16_copy_spec hm hL (hJ n (absurd hf)) total e _ n _ 0
        hstart hdm hmod (by omega) hhere (by omega)
      refine ⟨r, n, g, ?_, vsteps_trans L Q d e g hsteps hsteps',
        Or.inr ⟨hn, absurd hf, hwrote⟩⟩
      have hu : u32 (n : Int) = n := by
        have := hn.2
        rw [u32_natCast]
        exact Nat.mod_eq_of_lt (by omega)
      simp only [heq, if_neg (show ¬ ((n : Int) < 0) by omega), hcopy, hu]
  · simp only [if_neg hf]
    have hJf := hJ first (fun _ => rfl)
    have hr := hJf.range _ _ _ _ (hold hf)
    have hi : i32 (first : Int) = first := by
      have := hr.2
      exact i32_of_lt _ (by omega) (by omega)
    obtain ⟨r, e, k, c, hwalk, hstart, hsteps, hres⟩ := fat16_walk_spec hm hL hJf
      (pos / L.clusterSize) d 0 first 0 (hold hf)
    rcases hres with ⟨rfl, hs, hfull, hk⟩ | ⟨rfl, hk⟩
    · have hle : (k + 1) * L.clusterSize ≤ pos := by
        have := Nat.mul_le_mul_right L.clusterSize (show k + 1 ≤ pos / L.clusterSize by omega)
        omega
      refine ⟨-ENOMEM, first, e, ?_, hsteps,
        Or.inr ⟨hr, fun _ => rfl, k, c, 0, hstart, Or.inl ⟨rfl, hs, hfull, Or.inl hle⟩⟩⟩
      simp only [hi, hwalk]
      rfl
    · rw [Nat.zero_add] at hk
      subst hk
      obtain ⟨r, g, hcopy, hsteps', hwrote⟩ := fat16_copy_spec hm hL hJf total e _ c _ 0 hstart
        hdm hmod (by omega) hhere (by omega)
      refine ⟨r, first, g, ?_, vsteps_trans L Q d e g hsteps hsteps',
        Or.inr ⟨hr, fun _ => rfl, hwrote⟩⟩
      simp only [hi, hwalk, if_neg (show ¬ ((c : Int) < 0) by omega), hcopy]

theorem fat16_write_internal_spec (hm : Mounted p L) (hL : L.Wf)
    (J : Nat → Nat → Nat → Nat → View → Prop) (first : Nat)
    (hJ : ∀ f, (first ≠ 0 → f = first) → WriteInv L pos total src Q (J f)) (d : Disk) (h0 : Q (L.view d.sector))
    (hold : first ≠ 0 → J first 0 first 0 (L.view d.sector))
    (hnew : first = 0 → ∀ n, L.InRange n → (L.view d.sector).fat n = 0 →
      Q ((L.view d.sector).setFat n fat16Eoc) ∧
      J n (pos / L.clusterSize) n 0 ((L.view d.sector).setBoth n fat16Eoc)) :
    ∃ (r : Int) (f : Nat) (e : Disk), fat16_write_internal p d first pos src total = (r, f, e) ∧
      VSteps L Q d e ∧
      ((r = -ENOMEM ∧ first = 0 ∧ e = d) ∨
        (L.InRange f ∧ (first ≠ 0 → f = first) ∧ Wrote L pos total (J f) r (L.view e.sector))) := by
  obtain ⟨r, f, e, heq, hsteps, hres⟩ := fat16_write_internal_ended hm hL J first hJ d h0 hold hnew
  refine ⟨r, f, e, heq, hsteps, ?_⟩
  rcases hres with ⟨hr, hz, he, -⟩ | ⟨hr, hf, hend⟩
  · exact Or.inl ⟨hr, hz, he⟩
  · exact Or.inr ⟨hr, hf, wrote_of_ended r _ hend⟩

end PeachOS.Fat
