import PeachOS.Fat.WriteInternal
import PeachOS.Fat.FreeChain
import PeachOS.Spec.File

/-!
# A chain that grows under a write

What `fat16_write_internal` does when the file's clusters `l₀` form a chain: the chain grows at its
end by clusters that were free, the bytes go where they should, and no other used cluster changes.
-/

open PeachOS.Lib PeachOS.Streamer

namespace PeachOS

/-- From `σ₀` to `σ` the clusters `l₀` have grown to `l`, and nothing else that was in use changed. -/
structure Grows (σ₀ : View) (l₀ : List Nat) (σ : View) (l : List Nat) : Prop where
  pre : l₀ <+: l
  fresh : ∀ x ∈ l, x ∈ l₀ ∨ σ₀.fat x = 0
  dir : σ.dir = σ₀.dir
  fat : ∀ x, x ∉ l₀ → σ₀.fat x ≠ 0 → σ.fat x = σ₀.fat x
  data : ∀ x, x ∉ l₀ → σ₀.fat x ≠ 0 → σ.data x = σ₀.data x

namespace Fat

variable {p : FatPrivate} {L : Layout}

theorem grows_refl (σ : View) (l : List Nat) : Grows σ l σ l :=
  ⟨List.prefix_rfl, fun _ hx => Or.inl hx, rfl, fun _ _ _ => rfl, fun _ _ _ => rfl⟩

/-- The crash predicate: the list on disk, from the first cluster before the write, has grown. -/
def GrowsFrom (L : Layout) (σ₀ : View) (first : Nat) (l₀ : List Nat) (σ : View) : Prop :=
  ∃ l, ClusterList L σ.fat first l ∧ Grows σ₀ l₀ σ l

/-! ## The table -/

theorem not_inRange_zero : ¬ L.InRange 0 := fun h => by
  have := h.1
  omega

theorem small_not_stop (hS : L.Small) (c : Nat) (hc : L.InRange c) : ¬ Stop c := by
  have := hc.1
  have := hc.2
  unfold Layout.Small at hS
  unfold Stop
  omega

theorem small_not_eoc (hS : L.Small) (c : Nat) (hc : L.InRange c) : ¬ Eoc c :=
  fun h => small_not_stop hS c hc (Or.inr h)

theorem fatChain_ne_zero (fat : Nat → Nat) (c : Nat) (l : List Nat) (h : FatChain L fat c l) (x : Nat)
    (hx : x ∈ l) : fat x ≠ 0 := by
  rcases chain_link c l h x hx with hs | hok
  · unfold Eoc at hs
    omega
  · have := hok.1
    omega

theorem clusterList_ne_zero (fat : Nat → Nat) (c : Nat) (l : List Nat) (h : ClusterList L fat c l)
    (x : Nat) (hx : x ∈ l) : fat x ≠ 0 := by
  rcases h with ⟨-, rfl⟩ | h
  · simp at hx
  · exact fatChain_ne_zero fat c l h x hx

theorem clusterList_inRange (fat : Nat → Nat) (c : Nat) (l : List Nat) (h : ClusterList L fat c l)
    (x : Nat) (hx : x ∈ l) : L.InRange x := by
  rcases h with ⟨-, rfl⟩ | h
  · simp at hx
  · exact chain_ok c l h x hx

theorem clusterList_congr (fat fat' : Nat → Nat) (c : Nat) (l : List Nat) (h : ClusterList L fat c l)
    (heq : ∀ x ∈ l, fat' x = fat x) : ClusterList L fat' c l := by
  rcases h with h | h
  · exact Or.inl h
  · exact Or.inr (chain_congr c l h heq)

theorem clusterList_unique (hS : L.Small) (fat : Nat → Nat) (c : Nat) (l m : List Nat)
    (hl : ClusterList L fat c l) (hm : ClusterList L fat c m) : l = m := by
  rcases hl with ⟨rfl, rfl⟩ | hl <;> rcases hm with ⟨h0, rfl⟩ | hm
  · rfl
  · exact absurd (chain_ok _ _ hm _ (chain_mem_first _ _ hm)) not_inRange_zero
  · subst h0
    exact absurd (chain_ok _ _ hl _ (chain_mem_first _ _ hl)) not_inRange_zero
  · exact chain_unique (small_not_eoc hS) c l m hl hm

/-! ## The bytes -/

theorem byteAt_append (σ : View) (l m : List Nat) (q : Nat) (hq : q < l.length * L.clusterSize) :
    byteAt L σ (l ++ m) q = byteAt L σ l q := by
  have hlt : q / L.clusterSize < l.length := Nat.div_lt_of_lt_mul (by rwa [Nat.mul_comm])
  unfold byteAt
  rw [List.getD_eq_getElem?_getD, List.getD_eq_getElem?_getD, List.getElem?_append_left hlt]

theorem byteAt_setData (hL : L.Wf) (σ : View) (l : List Nat) (hd : l.Nodup) (k c off n : Nat)
    (inp : Nat → UInt8) (hk : l[k]? = some c) (hn : off + n ≤ L.clusterSize) (q : Nat)
    (hq : q < l.length * L.clusterSize) :
    byteAt L (σ.setData c off n inp) l q =
      if k * L.clusterSize + off ≤ q ∧ q < k * L.clusterSize + off + n
      then inp (q - (k * L.clusterSize + off)) else byteAt L σ l q := by
  have hcs := clusterSize_pos hL
  have hqe := div_mul_add_mod q L.clusterSize
  have hqm := Nat.mod_lt q hcs
  have hi : q / L.clusterSize < l.length := Nat.div_lt_of_lt_mul (by rwa [Nat.mul_comm])
  have hx := List.getElem?_eq_getElem hi
  have hget : l.getD (q / L.clusterSize) 0 = l[q / L.clusterSize] := by
    rw [List.getD_eq_getElem?_getD, hx, Option.getD_some]
  unfold byteAt
  rw [hget]
  simp only [View.setData]
  by_cases hik : q / L.clusterSize = k
  · have hc : l[q / L.clusterSize] = c := by
      rw [← hik, hx] at hk
      exact Option.some.inj hk
    rw [hik] at hqe
    by_cases hin : off ≤ q % L.clusterSize ∧ q % L.clusterSize < off + n
    · rw [if_pos ⟨hc, hin⟩, if_pos (by omega)]
      congr 1
      omega
    · rw [if_neg (fun h => hin h.2), if_neg (by omega)]
  · -- Another index is another cluster, and its bytes are outside the range.
    have hc : l[q / L.clusterSize] ≠ c := by
      intro hc
      apply hik
      obtain ⟨hk', hkc⟩ := List.getElem?_eq_some_iff.mp hk
      exact (List.Nodup.getElem_inj_iff hd).mp (hc.trans hkc.symm)
    rw [if_neg (fun h => hc h.1), if_neg]
    rintro ⟨h1, h2⟩
    apply hik
    have h3 : q < (k + 1) * L.clusterSize := by
      rw [Nat.succ_mul]
      omega
    have h4 := Nat.div_lt_of_lt_mul (by rwa [Nat.mul_comm] at h3)
    have h5 : k ≤ q / L.clusterSize := (Nat.le_div_iff_mul_le hcs).mpr (by omega)
    omega

/-! ## The invariant of the loops -/

/-- The loops stand at the `k`-th cluster `c` of the chain `l` from `f`, and have written `w` bytes. -/
structure Writing (L : Layout) (σ₀ : View) (l₀ : List Nat) (pos : Nat) (src : Nat → UInt8)
    (f k c w : Nat) (σ : View) (l : List Nat) : Prop where
  chain : FatChain L σ.fat f l
  here : l[k]? = some c
  grows : Grows σ₀ l₀ σ l
  reach : w = 0 ∨ pos + w ≤ l.length * L.clusterSize
  written : ∀ q, pos ≤ q → q < pos + w → byteAt L σ l q = src (q - pos)
  kept : ∀ q < l₀.length * L.clusterSize, q < pos ∨ pos + w ≤ q → byteAt L σ l q = byteAt L σ₀ l₀ q

variable {σ₀ σ : View} {l₀ l : List Nat} {pos first f k c w : Nat} {src : Nat → UInt8}

theorem grows_sub (h : Grows σ₀ l₀ σ l) (m : List Nat) (hp : l₀ <+: m) (hm : m ⊆ l) : Grows σ₀ l₀ σ m :=
  ⟨hp, fun x hx => h.fresh x (hm hx), h.dir, h.fat, h.data⟩

theorem grows_push (h : Grows σ₀ l₀ σ l) (n : Nat) (hz : σ.fat n = 0) : Grows σ₀ l₀ σ (l ++ [n]) := by
  refine ⟨h.pre.trans (List.prefix_append l [n]), ?_, h.dir, h.fat, h.data⟩
  intro x hx
  rcases List.mem_append.mp hx with hx | hx
  · exact h.fresh x hx
  · rw [List.mem_singleton.mp hx]
    by_contra hne
    rw [not_or] at hne
    have := h.fat n hne.1 hne.2
    omega

theorem grows_inside (h : Grows σ₀ l₀ σ l) (hc : c ∈ l) (x : Nat) (hx : x ∉ l₀) (hne : σ₀.fat x ≠ 0) :
    x ≠ c := by
  rintro rfl
  rcases h.fresh x hc with hm | hz
  · exact hx hm
  · exact hne hz

theorem grows_link (h : Grows σ₀ l₀ σ l) (hc : c ∈ l) (v : Nat) :
    Grows σ₀ l₀ (σ.setFat c v) l ∧ Grows σ₀ l₀ (σ.setBoth c v) l := by
  have hfat : ∀ x, x ∉ l₀ → σ₀.fat x ≠ 0 → (if x = c then v else σ.fat x) = σ₀.fat x := by
    intro x hx hne
    rw [if_neg (grows_inside h hc x hx hne), h.fat x hx hne]
  exact ⟨⟨h.pre, h.fresh, h.dir, hfat, h.data⟩, ⟨h.pre, h.fresh, h.dir, hfat, h.data⟩⟩

theorem grows_fill (h : Grows σ₀ l₀ σ l) (hc : c ∈ l) (off n : Nat) (inp : Nat → UInt8) :
    Grows σ₀ l₀ (σ.setData c off n inp) l := by
  refine ⟨h.pre, h.fresh, h.dir, h.fat, fun x hx hne => ?_⟩
  rw [← h.data x hx hne]
  funext o
  simp only [View.setData]
  rw [if_neg (fun hh => grows_inside h hc x hx hne hh.1)]

theorem growsFrom_of_chain (hf : first ≠ 0 → f = first) (h0 : first = 0 → l₀ = [])
    (hc : FatChain L σ.fat f l) (h : Grows σ₀ l₀ σ l) : GrowsFrom L σ₀ first l₀ σ := by
  by_cases hz : first = 0
  · obtain rfl := h0 hz
    exact ⟨[], Or.inl ⟨hz, rfl⟩, grows_sub h [] List.prefix_rfl (List.nil_subset l)⟩
  · rw [hf hz] at hc
    exact ⟨l, Or.inr hc, h⟩

theorem writing_follow (h : Writing L σ₀ l₀ pos src f k c w σ l) (hs : ¬ Stop (σ.fat c)) :
    Writing L σ₀ l₀ pos src f (k + 1) (σ.fat c) w σ l :=
  ⟨h.chain, chain_follow f l h.chain k c h.here (fun he => hs (Or.inr he)), h.grows, h.reach, h.written,
    h.kept⟩

theorem writing_extend_chain (hS : L.Small) (h : Writing L σ₀ l₀ pos src f k c w σ l)
    (hs : Stop (σ.fat c)) (n : Nat) (hn : L.InRange n) (hz : σ.fat n = 0) (σ' : View)
    (hc' : σ'.fat c = n) (hn' : σ'.fat n = fat16Eoc) (heq : ∀ x, x ≠ c → x ≠ n → σ'.fat x = σ.fat x) :
    n ∉ l ∧ k + 1 = l.length ∧ FatChain L σ'.fat f (l ++ [n]) := by
  have hnl : n ∉ l := fun hm => fatChain_ne_zero σ.fat f l h.chain n hm hz
  have hend := chain_at_end f l h.chain k c h.here (fun hok => small_not_stop hS _ hok hs)
  refine ⟨hnl, hend, ?_⟩
  apply chain_extend f l h.chain c n
  · rw [← hend]
    exact h.here
  · exact hnl
  · exact hn
  · rw [hn']
    show 0xFFF8 ≤ fat16Eoc
    decide
  · exact hc'
  · intro x hx hxc
    exact heq x hxc (fun hxn => hnl (hxn ▸ hx))

theorem writing_data (hL : L.Wf) (h : Writing L σ₀ l₀ pos src f k c w σ l) (off n : Nat)
    (hpos : k * L.clusterSize + off = pos + w) (hn : off + n ≤ L.clusterSize) :
    Writing L σ₀ l₀ pos src f k c (w + n) (σ.setData c off n fun i => src (w + i)) l := by
  have hk : k < l.length := (List.getElem?_eq_some_iff.mp h.here).1
  have hmul := Nat.mul_le_mul_right L.clusterSize (Nat.succ_le_of_lt hk)
  rw [Nat.succ_mul] at hmul
  have hbyte := byteAt_setData hL σ l (chain_nodup f l h.chain) k c off n (fun i => src (w + i)) h.here hn
  refine ⟨h.chain, h.here, grows_fill h.grows (List.mem_of_getElem? h.here) off n _, Or.inr (by omega),
    ?_, ?_⟩
  · intro q h1 h2
    rw [hbyte q (by omega), hpos]
    by_cases hq : pos + w ≤ q
    · rw [if_pos (by omega), show w + (q - (pos + w)) = q - pos by omega]
    · rw [if_neg (by omega)]
      exact h.written q h1 (by omega)
  · intro q hq hout
    have hle := Nat.mul_le_mul_right L.clusterSize h.grows.pre.length_le
    rw [hbyte q (by omega), hpos, if_neg (by omega)]
    exact h.kept q hq (by omega)

theorem writing_extend (hS : L.Small) (h : Writing L σ₀ l₀ pos src f k c w σ l) (hs : Stop (σ.fat c))
    (n : Nat) (hn : L.InRange n) (hz : σ.fat n = 0) :
    Writing L σ₀ l₀ pos src f (k + 1) n w ((σ.setBoth n fat16Eoc).setBoth c n) (l ++ [n]) := by
  have hcl : c ∈ l := List.mem_of_getElem? h.here
  have hcn : c ≠ n := fun e => fatChain_ne_zero σ.fat f l h.chain c hcl (by rw [e]; exact hz)
  obtain ⟨hnl, hend, hchain⟩ := writing_extend_chain hS h hs n hn hz ((σ.setBoth n fat16Eoc).setBoth c n)
    (by simp) (by simp [hcn.symm]) (fun x hxc hxn => by simp [hxc, hxn])
  have hmark := (grows_link (grows_push h.grows n hz) (List.mem_append_right l (List.mem_singleton_self n))
    fat16Eoc).2
  have hgrows := (grows_link hmark (List.mem_append_left [n] hcl) n).2
  refine ⟨hchain, ?_, hgrows, ?_, ?_, ?_⟩
  · rw [hend, List.getElem?_append_right (Nat.le_refl _), Nat.sub_self]
    rfl
  · rcases h.reach with h0 | h0
    · exact Or.inl h0
    · refine Or.inr (h0.trans (Nat.mul_le_mul_right _ ?_))
      simp
  · intro q h1 h2
    rw [byteAt_append _ l [n] q (by rcases h.reach with h0 | h0 <;> omega)]
    exact h.written q h1 h2
  · intro q hq hout
    have hle := Nat.mul_le_mul_right L.clusterSize h.grows.pre.length_le
    rw [byteAt_append _ l [n] q (by omega)]
    exact h.kept q hq hout

/-- Between two entries of the extension the disk still has the old list, or the new one. -/
theorem writing_extend_safe (hS : L.Small) (h : Writing L σ₀ l₀ pos src f k c w σ l)
    (hf : first ≠ 0 → f = first) (h0 : first = 0 → l₀ = []) (hs : Stop (σ.fat c)) (n : Nat)
    (hn : L.InRange n) (hz : σ.fat n = 0) :
    GrowsFrom L σ₀ first l₀ (σ.setFat n fat16Eoc) ∧ GrowsFrom L σ₀ first l₀ (σ.setBoth n fat16Eoc) ∧
      GrowsFrom L σ₀ first l₀ ((σ.setBoth n fat16Eoc).setFat c n) := by
  have hcl : c ∈ l := List.mem_of_getElem? h.here
  have hcn : c ≠ n := fun e => fatChain_ne_zero σ.fat f l h.chain c hcl (by rw [e]; exact hz)
  obtain ⟨hnl, -, hchain⟩ := writing_extend_chain hS h hs n hn hz ((σ.setBoth n fat16Eoc).setFat c n)
    (by simp) (by simp [hcn.symm]) (fun x hxc hxn => by simp [hxc, hxn])
  have hmark := grows_link (grows_push h.grows n hz)
    (List.mem_append_right l (List.mem_singleton_self n)) fat16Eoc
  have hsub : l ⊆ l ++ [n] := List.subset_append_left l [n]
  have hold : ∀ σ' : View, (∀ x, x ≠ n → σ'.fat x = σ.fat x) → FatChain L σ'.fat f l := by
    intro σ' heq
    exact chain_congr f l h.chain (fun x hx => heq x (fun hxn => hnl (hxn ▸ hx)))
  refine ⟨?_, ?_, ?_⟩
  · exact growsFrom_of_chain hf h0 (hold _ (fun x hx => by simp [hx]))
      (grows_sub hmark.1 l h.grows.pre hsub)
  · exact growsFrom_of_chain hf h0 (hold _ (fun x hx => by simp [hx]))
      (grows_sub hmark.2 l h.grows.pre hsub)
  · exact growsFrom_of_chain hf h0 hchain (grows_link hmark.2 (hsub hcl) n).1

/-- Every cluster in use is in the list, or was in use before. -/
def Accounted (L : Layout) (σ₀ σ : View) (l : List Nat) : Prop :=
  ∀ x, L.InRange x → σ.fat x ≠ 0 → x ∈ l ∨ σ₀.fat x ≠ 0

theorem accounted_refl (σ : View) (l : List Nat) : Accounted L σ σ l := fun _ _ hx => Or.inr hx

theorem accounted_extend (h : Accounted L σ₀ σ l) (hc : c ∈ l) (n v : Nat) :
    Accounted L σ₀ ((σ.setBoth n fat16Eoc).setBoth c v) (l ++ [n]) := by
  intro x hx hne
  by_cases hxc : x = c
  · rw [hxc]
    exact Or.inl (List.mem_append_left [n] hc)
  by_cases hxn : x = n
  · rw [hxn]
    exact Or.inl (List.mem_append_right l (List.mem_singleton_self n))
  simp only [View.setBoth_fat, hxc, hxn, if_false] at hne
  exact (h x hx hne).imp (List.mem_append_left [n]) id

theorem writeInv_writing (hL : L.Wf) (hS : L.Small) (total : Nat) (hf : first ≠ 0 → f = first)
    (h0 : first = 0 → l₀ = []) :
    WriteInv L pos total src (GrowsFrom L σ₀ first l₀)
      (fun k c w σ => ∃ l, Writing L σ₀ l₀ pos src f k c w σ l ∧ Accounted L σ₀ σ l) := by
  refine ⟨?_, ?_, ?_, ?_, ?_⟩
  · rintro k c w σ ⟨l, h, -⟩
    exact chain_ok f l h.chain c (List.mem_of_getElem? h.here)
  · rintro k c w σ ⟨l, h, -⟩
    exact growsFrom_of_chain hf h0 h.chain h.grows
  · rintro k c w σ ⟨l, h, ha⟩ hs
    exact ⟨l, writing_follow h hs, ha⟩
  · rintro k c w σ n ⟨l, h, ha⟩ hs hn hz
    have hmod : n % 65536 = n := by
      have := hn.2
      unfold Layout.Small at hS
      omega
    obtain ⟨h1, h2, h3⟩ := writing_extend_safe hS h hf h0 hs n hn hz
    rw [hmod]
    exact ⟨h1, h2, h3, l ++ [n], writing_extend hS h hs n hn hz,
      accounted_extend ha (List.mem_of_getElem? h.here) n n⟩
  · rintro k c w σ off n ⟨l, h, ha⟩ hpos hn -
    refine ⟨fun m hm => ?_, l, writing_data hL h off n hpos hn, ha⟩
    have hw := writing_data hL h off m hpos (by omega)
    exact growsFrom_of_chain hf h0 hw.chain hw.grows

theorem writing_start_old (h : FatChain L σ.fat first l) :
    Writing L σ l pos src first 0 first 0 σ l := by
  refine ⟨h, ?_, grows_refl σ l, Or.inl rfl, fun q h1 h2 => by omega, fun q _ _ => rfl⟩
  rw [← List.head?_eq_getElem?]
  exact chain_head first l h

theorem writing_start_new (hz : first = 0) (n : Nat) (hn : L.InRange n) (hfree : σ.fat n = 0) :
    GrowsFrom L σ first [] (σ.setFat n fat16Eoc) ∧
      ∃ l, Writing L σ [] pos src n 0 n 0 (σ.setBoth n fat16Eoc) l ∧ Accounted L σ (σ.setBoth n fat16Eoc) l := by
  have hmark := grows_link (grows_push (grows_refl σ []) n hfree) (List.mem_singleton_self n) fat16Eoc
  refine ⟨⟨[], Or.inl ⟨hz, rfl⟩, grows_sub hmark.1 [] List.prefix_rfl (List.nil_subset _)⟩, [n], ⟨?_, rfl,
    hmark.2, Or.inl rfl, fun q h1 h2 => by omega, fun q hq _ => by simp at hq⟩, ?_⟩
  · refine .last n hn ?_
    rw [View.setBoth_fat, if_pos rfl]
    show 0xFFF8 ≤ fat16Eoc
    decide
  · intro x _ hne
    by_cases hxn : x = n
    · exact Or.inl (by rw [hxn]; exact List.mem_singleton_self n)
    · rw [View.setBoth_fat, if_neg hxn] at hne
      exact Or.inr hne

theorem chain_bytes_below (hL : L.Wf) (hS : L.Small) (h : FatChain L σ.fat f l) :
    l.length * L.clusterSize < 0x80000000 := by
  have hle := Nat.mul_le_mul_right L.clusterSize (fatChain_length hS _ f l h).1
  have hb := hL.below
  have hroom := hL.room
  have hpos : 0 < L.dataPos := by
    unfold Layout.dataPos Layout.rootPos Layout.entries at *
    omega
  omega

/-- What a write leaves of the file whose clusters were `l₀`. -/
structure Written (L : Layout) (σ₀ : View) (l₀ : List Nat) (pos total : Nat) (src : Nat → UInt8)
    (σ : View) (l : List Nat) : Prop where
  room : pos + total ≤ l.length * L.clusterSize
  written : ∀ q, pos ≤ q → q < pos + total → byteAt L σ l q = src (q - pos)
  kept : ∀ q < l₀.length * L.clusterSize, q < pos ∨ pos + total ≤ q →
    byteAt L σ l q = byteAt L σ₀ l₀ q

/-- A write either runs out of clusters or writes everything. In both cases the chain has grown, and it has all the
clusters that were taken. -/
theorem fat16_write_internal_accounts (hm : Mounted p L) (hL : L.Wf) (hS : L.Small) (d : Disk)
    (first pos total : Nat) (src : Nat → UInt8) (l₀ : List Nat)
    (hl : ClusterList L (L.view d.sector).fat first l₀) (hpos : first = 0 → pos = 0) :
    ∃ (r : Int) (f : Nat) (e : Disk), fat16_write_internal p d first pos src total = (r, f, e) ∧
      VSteps L (GrowsFrom L (L.view d.sector) first l₀) d e ∧
      ((r = -ENOMEM ∧ first = 0 ∧ e = d ∧ Full L (L.view d.sector)) ∨
        ((first ≠ 0 → f = first) ∧ ∃ l, FatChain L (L.view e.sector).fat f l ∧
          Grows (L.view d.sector) l₀ (L.view e.sector) l ∧ Accounted L (L.view d.sector) (L.view e.sector) l ∧
          ((r = -ENOMEM ∧ Full L (L.view e.sector) ∧
              (l.length * L.clusterSize ≤ pos ∨ l.length * L.clusterSize < pos + total)) ∨
            (r = total ∧ pos < l.length * L.clusterSize ∧
              Written L (L.view d.sector) l₀ pos total src (L.view e.sector) l)))) := by
  have h0 : first = 0 → l₀ = [] := by
    rintro rfl
    exact clusterList_unique hS _ 0 l₀ [] hl (Or.inl ⟨rfl, rfl⟩)
  have hchain : first ≠ 0 → FatChain L (L.view d.sector).fat first l₀ := by
    intro hne
    rcases hl with ⟨hz, -⟩ | hl
    · exact absurd hz hne
    · exact hl
  obtain ⟨r, f, e, heq, hsteps, hres⟩ := fat16_write_internal_ended hm hL
    (fun f k c w σ => ∃ l, Writing L (L.view d.sector) l₀ pos src f k c w σ l ∧ Accounted L (L.view d.sector) σ l)
    first (fun f hf => writeInv_writing hL hS total hf h0) d ⟨l₀, hl, grows_refl _ l₀⟩
    (fun hne => ⟨l₀, writing_start_old (hchain hne), accounted_refl _ l₀⟩)
    (fun hz n hn hfree => by
      rw [hpos hz, Nat.zero_div, h0 hz]
      exact writing_start_new hz n hn hfree)
  refine ⟨r, f, e, heq, hsteps, ?_⟩
  rcases hres with hfail | ⟨-, hf, k, c, w, ⟨l, hw, ha⟩, hr⟩
  · exact Or.inl hfail
  · refine Or.inr ⟨hf, l, hw.chain, hw.grows, ha, ?_⟩
    rcases hr with ⟨hr, hs, hfull, hmore⟩ | ⟨hr, rfl, hle, hhere⟩
    · have hend := chain_at_end f l hw.chain k c hw.here fun hok => small_not_stop hS _ hok hs
      rw [hend] at hmore
      exact Or.inl ⟨hr, hfull, hmore⟩
    · have hk : (k + 1) * L.clusterSize ≤ l.length * L.clusterSize :=
        Nat.mul_le_mul_right _ (Nat.succ_le_of_lt (List.getElem?_eq_some_iff.mp hw.here).1)
      have hi : i32 (w : Int) = w := by
        have := chain_bytes_below hL hS hw.chain
        exact i32_of_lt _ (by omega) (by omega)
      exact Or.inr ⟨by rw [hr, hi], hhere.trans_le hk, hle.trans hk, hw.written, hw.kept⟩

theorem fat16_write_internal_grows (hm : Mounted p L) (hL : L.Wf) (hS : L.Small) (d : Disk)
    (first pos total : Nat) (src : Nat → UInt8) (l₀ : List Nat)
    (hl : ClusterList L (L.view d.sector).fat first l₀) (hpos : first = 0 → pos = 0) :
    ∃ (r : Int) (f : Nat) (e : Disk), fat16_write_internal p d first pos src total = (r, f, e) ∧
      VSteps L (GrowsFrom L (L.view d.sector) first l₀) d e ∧
      ((r = -ENOMEM ∧ first = 0 ∧ e = d) ∨
        ((first ≠ 0 → f = first) ∧ ∃ l, FatChain L (L.view e.sector).fat f l ∧
          Grows (L.view d.sector) l₀ (L.view e.sector) l ∧
          (r = -ENOMEM ∨ (r = total ∧
            Written L (L.view d.sector) l₀ pos total src (L.view e.sector) l)))) := by
  obtain ⟨r, f, e, heq, hsteps, hres⟩ := fat16_write_internal_accounts hm hL hS d first pos total src l₀ hl hpos
  refine ⟨r, f, e, heq, hsteps, ?_⟩
  rcases hres with ⟨hr, hz, he, -⟩ | ⟨hf, l, hchain, hgrows, -, hr⟩
  · exact Or.inl ⟨hr, hz, he⟩
  · refine Or.inr ⟨hf, l, hchain, hgrows, ?_⟩
    rcases hr with ⟨hr, -⟩ | ⟨hr, -, hw⟩
    · exact Or.inl hr
    · exact Or.inr ⟨hr, hw⟩

end Fat

end PeachOS
