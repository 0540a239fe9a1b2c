import PeachOS.Fat.Mount
import PeachOS.Fat.Volume
import PeachOS.Spec.Targets

/-!
# What the destructive calls hit

`fat16_find_root_dir_slot_by_name` gets the first part of the path only, and looks at the attributes only to
skip long names. So both calls act on whatever the first part names.
-/

open PeachOS.Lib

namespace PeachOS.Fat

variable {L : Layout} {v : Volume} {part : Nat → UInt8} {next : List (Nat → UInt8)}

/-! ## The lookup -/

theorem find_slot_cases (hm : Mounted v.priv L) (name : Nat → UInt8) :
    (∃ j : Nat, fat16_find_root_dir_slot_by_name v.priv name = j ∧ Named v.priv name j) ∨
    (fat16_find_root_dir_slot_by_name v.priv name = -1 ∧ ∀ j, ¬ Named v.priv name j) := by
  rcases fat16_find_root_dir_slot_by_name_spec hm name with ⟨j, heq, hlt, hlive, hname, hfirst⟩ | ⟨heq, hnone⟩
  · exact Or.inl ⟨j, heq, by rwa [hm.rde], hlive, hname, hfirst⟩
  · refine Or.inr ⟨heq, ?_⟩
    rintro j ⟨hlt, hlive, hname, hfirst⟩
    rw [hm.rde] at hlt
    refine hnone j hlt ?_ ⟨hlive, hname⟩
    intro k hk
    rcases Nat.eq_or_lt_of_le hk with rfl | hk
    · exact hlive.1
    · exact (hfirst k hk).1

theorem named_unique (i j : Nat) (hi : Named v.priv part i) (hj : Named v.priv part j) : i = j := by
  rcases Nat.lt_trichotomy i j with h | h | h
  · exact absurd ⟨hi.live, hi.shows⟩ (hj.first i h).2
  · exact h
  · exact absurd ⟨hj.live, hj.shows⟩ (hi.first j h).2

/-! ## What is hit -/

theorem recycle_same (hv : v.Ok L) (hL : L.Wf) (i : Nat) (hi : i < L.rde)
    (hfirst : fat16_get_first_cluster (v.priv.root_directory.item i) < 2) :
    (recycle v i (v.priv.root_directory.item i)).view L = v.view L := by
  have hrec : recycle v i (v.priv.root_directory.item i) =
      fat16_store_entry v i (v.priv.root_directory.item i) := by
    unfold recycle
    dsimp only
    rw [if_neg (by omega)]
  rw [hrec, (fat16_store_entry_spec hv hL i hi _).2.1, hv.synced i hi]
  ext1
  · rfl
  · rfl
  · funext x
    rw [View.setDir_dir]
    split
    · rename_i hx
      rw [hx]
    · rfl
  · rfl

theorem recycle_hits (hv : v.Ok L) (hL : L.Wf) (j : Nat) (hj : Designates v.priv part next j)
    (it : FatDirectoryItem) : HitsDesignated L v part next (recycle v j it) := by
  have hlt : j < L.rde := by
    rw [← hv.mounted.rde]
    exact hj.lt
  constructor
  · intro k hk _ hne
    rw [recycle_item] at hne
    by_cases hkj : k = j
    · rwa [hkj]
    · rw [if_neg hkj] at hne
      exact absurd rfl hne
  · intro hnone
    exact absurd hj (hnone j)
  · intro k hk hS hc
    have hkj := named_unique k j hk.toNamed hj.toNamed
    subst hkj
    have hlive := hj.live
    rw [hv.synced k hlt] at hlive
    obtain ⟨-, ⟨l, hl, hview⟩, -⟩ := recycle_spec hv hL hS hc k hlt hlive it
    have hlist : ClusterList L (v.view L).fat (fat16_get_first_cluster ((v.view L).dir k)) l := by
      rcases hl with hl | hl
      · exact hl.2
      · exact absurd hlive (not_live_of_freeSlot _ hl.1)
    refine ⟨l, hlist, ?_, ?_⟩
    · intro c hcl
      rw [hview]
      simp [hcl]
    · intro i hi
      rw [hview]
      simp [hi]

theorem recycle_hits_iff (hv : v.Ok L) (hL : L.Wf) (j : Nat) (hj : Named v.priv part j) (it : FatDirectoryItem)
    (hit : it = v.priv.root_directory.item j → fat16_get_first_cluster (v.priv.root_directory.item j) < 2) :
    HitsDesignated L v part next (recycle v j it) ↔
      (next = [] ∧ RegularFile (v.priv.root_directory.item j)) ∨ it = v.priv.root_directory.item j := by
  have hlt : j < L.rde := by
    rw [← hv.mounted.rde]
    exact hj.lt
  constructor
  · intro h
    by_cases hsame : it = v.priv.root_directory.item j
    · exact Or.inr hsame
    · have hused : ¬ FreeSlot (v.priv.root_directory.item j) := fun hf => not_live_of_freeSlot _ hf hj.live
      have hdes := h.entries j hlt hused (by rwa [recycle_item, if_pos rfl])
      exact Or.inl ⟨hdes.whole, hdes.regular⟩
  · rintro (⟨hwhole, hregular⟩ | hsame)
    · exact recycle_hits hv hL j ⟨hj, hwhole, hregular⟩ it
    · by_cases hdes : Designates v.priv part next j
      · exact recycle_hits hv hL j hdes it
      · have hnone : ∀ k, ¬ Designates v.priv part next k := by
          intro k hk
          rw [named_unique k j hk.toNamed hj] at hk
          exact hdes hk
        have hview := recycle_same hv hL j hlt (hit hsame)
        rw [hsame]
        refine ⟨?_, fun _ => by rw [hview]; exact ⟨rfl, rfl, fun _ _ _ => rfl⟩,
          fun k hk => absurd hk (hnone k)⟩
        intro k _ _ hne
        rw [recycle_item] at hne
        by_cases hkj : k = j
        · rw [if_pos hkj, hkj] at hne
          exact absurd rfl hne
        · rw [if_neg hkj] at hne
          exact absurd rfl hne

theorem hits_self (hnone : ∀ j, ¬ Named v.priv part j) : HitsDesignated L v part next v :=
  ⟨fun _ _ _ hne => absurd rfl hne, fun _ => ⟨rfl, rfl, fun _ _ _ => rfl⟩,
    fun j hj => absurd hj.toNamed (hnone j)⟩

theorem create_hits (hv : v.Ok L) (hL : L.Wf) (hnone : ∀ j, ¬ Named v.priv part j) (i : Nat) (hi : i < L.rde)
    (hfree : FreeSlot (v.priv.root_directory.item i)) :
    HitsDesignated L v part next (fat16_open_create v i part) := by
  have hview : (fat16_open_create v i part).view L = (v.view L).setDir i (fat16_new_entry part) := by
    rw [← (fat16_store_entry_spec hv hL i hi (fat16_new_entry part)).2.1]
    unfold fat16_open_create
    dsimp only
    split <;> rfl
  refine ⟨?_, ?_, fun j hj => absurd hj.toNamed (hnone j)⟩
  · intro j _ hused hne
    rw [open_create_item, if_neg (by rintro rfl; exact hused hfree)] at hne
    exact absurd rfl hne
  · intro _
    rw [hview]
    refine ⟨rfl, rfl, ?_⟩
    intro j hj hused
    rw [View.setDir_dir, if_neg]
    rintro rfl
    rw [← hv.synced j hj] at hused
    exact hused hfree

theorem deleted_ne (it : FatDirectoryItem) (hlive : Live it) : deleted it ≠ it := by
  intro h
  have h0 := congrArg (fun it => FatDirectoryItem.filename it 0) h
  exact hlive.2.1 h0.symm

theorem emptied_eq_iff (it : FatDirectoryItem) :
    emptied it = it ↔ it.filesize = 0 ∧ fat16_get_first_cluster it = 0 := by
  have hsplit : fat16_get_first_cluster it = 0 ↔
      it.low_16_bits_first_cluster = 0 ∧ it.high_16_bits_first_cluster = 0 := by
    rw [← UInt16.toNat_inj, ← UInt16.toNat_inj]
    unfold fat16_get_first_cluster
    simp only [UInt16.toNat_zero]
    omega
  rw [hsplit]
  cases it
  simp only [emptied, FatDirectoryItem.mk.injEq, true_and]
  constructor
  · rintro ⟨h1, h2, h3⟩
    exact ⟨h3.symm, h2.symm, h1.symm⟩
  · rintro ⟨h1, h2, h3⟩
    exact ⟨h3.symm, h2.symm, h1.symm⟩

theorem delete_hits_iff (hv : v.Ok L) (hL : L.Wf) :
    HitsDesignated L v part next (fat16_delete v part).2 ↔ NamesWhole v.priv part next := by
  rcases find_slot_cases hv.mounted part with ⟨j, heq, hj⟩ | ⟨heq, hnone⟩
  · have hne := deleted_ne _ hj.live
    rw [fat16_delete_found part j heq, recycle_hits_iff hv hL j hj _ (fun h => absurd h hne)]
    constructor
    · rintro (h | h) k hk
      · rwa [named_unique k j hk hj]
      · exact absurd h hne
    · intro h
      exact Or.inl (h j hj)
  · rw [fat16_delete_missing part heq]
    exact ⟨fun _ j hj => absurd hj (hnone j), fun _ => hits_self hnone⟩

theorem open_hits_iff (hv : v.Ok L) (hL : L.Wf) (kzalloc : FatMemory) :
    HitsDesignated L v part next (fat16_open_write v part kzalloc).1 ↔ NamesWholeOrEmpty v.priv part next := by
  rcases find_slot_cases hv.mounted part with ⟨j, heq, hj⟩ | ⟨heq, hnone⟩
  · have hfirst : emptied (v.priv.root_directory.item j) = v.priv.root_directory.item j →
        fat16_get_first_cluster (v.priv.root_directory.item j) < 2 := by
      intro h
      have := ((emptied_eq_iff _).mp h).2
      omega
    rw [fat16_open_write_found part kzalloc j heq, recycle_hits_iff hv hL j hj _ hfirst, emptied_eq_iff]
    constructor
    · intro h k hk
      rwa [named_unique k j hk hj]
    · intro h
      exact h j hj
  · have hall : NamesWholeOrEmpty v.priv part next := fun j hj => absurd hj (hnone j)
    rw [iff_true_right hall]
    rcases fat16_find_free_root_dir_slot_spec hv.mounted with ⟨i, hi, hlt, hfree, -⟩ | ⟨hfull, -⟩
    · rw [fat16_open_write_new part kzalloc i heq hi]
      exact create_hits hv hL hnone i hlt hfree
    · rw [fat16_open_write_full part kzalloc heq hfull]
      exact hits_self hnone

/-- For every path and every root directory: a delete hits the designated file only, if and only if what its first
part names is designated by the whole path. An open for writing may also find an entry that is empty already. -/
theorem destructive_calls_iff (hv : v.Ok L) (hL : L.Wf) (part : Nat → UInt8) (next : List (Nat → UInt8)) :
    (HitsDesignated L v part next (fat16_delete v part).2 ↔ NamesWhole v.priv part next) ∧
    ∀ kzalloc, HitsDesignated L v part next (fat16_open v part next .write kzalloc).1 ↔
      NamesWholeOrEmpty v.priv part next :=
  ⟨delete_hits_iff hv hL, open_hits_iff hv hL⟩

theorem sample_named (j : Nat) : Named sample.priv (cstr [65]) j ↔ j = 0 := by
  have h0 : Named sample.priv (cstr [65]) 0 := by
    refine ⟨?_, ?_, ?_, fun k hk => by omega⟩ <;> decide +kernel
  constructor
  · intro hj
    exact named_unique j 0 hj h0
  · rintro rfl
    exact h0

theorem sample_hits :
    HitsDesignated sampleLayout sample (cstr [65]) [] (fat16_delete sample (cstr [65])).2 ∧
    HitsDesignated sampleLayout sample (cstr [65]) []
      (fat16_open sample (cstr [65]) [] .write .enough).1 := by
  have hregular : RegularFile (sample.priv.root_directory.item 0) := by decide +kernel
  obtain ⟨hdelete, hopen⟩ := destructive_calls_iff sample_ok sample_wf (cstr [65]) []
  refine ⟨hdelete.mpr ?_, (hopen .enough).mpr ?_⟩
  · intro j hj
    rw [(sample_named j).mp hj]
    exact ⟨rfl, hregular⟩
  · intro j hj
    rw [(sample_named j).mp hj]
    exact Or.inl ⟨rfl, hregular⟩

/-- Deleting `A/B` deletes `A`, and opening `A/B` for writing empties `A`. -/
theorem sample_nested_hits :
    (((fat16_delete sample (cstr [65])).2.priv.root_directory.item 0).filename 0 = 0xE5 ∧
      (sample.view sampleLayout).fat 2 = 0xFFFF ∧
      ((fat16_delete sample (cstr [65])).2.view sampleLayout).fat 2 = 0 ∧
      ((fat16_open sample (cstr [65]) [cstr [66]] .write .enough).1.priv.root_directory.item 0).filesize = 0 ∧
      (sample.priv.root_directory.item 0).filesize = 3) ∧
    ¬ HitsDesignated sampleLayout sample (cstr [65]) [cstr [66]] (fat16_delete sample (cstr [65])).2 ∧
    ¬ HitsDesignated sampleLayout sample (cstr [65]) [cstr [66]]
      (fat16_open sample (cstr [65]) [cstr [66]] .write .enough).1 := by
  have hsize : (sample.priv.root_directory.item 0).filesize ≠ 0 := by decide +kernel
  have h0 := (sample_named 0).mpr rfl
  refine ⟨by decide +kernel, ?_, ?_⟩
  · intro h
    exact absurd ((delete_hits_iff sample_ok sample_wf).mp h 0 h0).1 (List.cons_ne_nil _ _)
  · intro h
    rcases (open_hits_iff sample_ok sample_wf _).mp h 0 h0 with h | h
    · exact absurd h.1 (List.cons_ne_nil _ _)
    · exact hsize h.1

end PeachOS.Fat
