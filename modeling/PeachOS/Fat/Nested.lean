import PeachOS.Fat.Directory
import PeachOS.Fat.Reading
import PeachOS.Fat.RootDirectory
import PeachOS.Spec.Nested

/-!
# Lookups through subdirectories

Every item is tagged as a file after its directory has been loaded, so a lookup never goes below the root directory.
-/

open PeachOS.Lib PeachOS.Streamer

namespace PeachOS.Fat

/-! ## The loads leave no trace -/

section Loads

variable (fuel : Nat) (p : FatPrivate) (d : Disk) (kzalloc : FatDirectoryItem → Nat → Bool) (memory : FatMemory)

theorem new_item_loading (item : FatDirectoryItem)
    (h : Subdirectory item → fat16_load_fat_directory fuel p d kzalloc item ≠ none) :
    Loading.fat16_new_fat_item_for_directory_item fuel p d kzalloc memory item =
      some (fat16_new_fat_item_for_directory_item item memory) := by
  unfold Loading.fat16_new_fat_item_for_directory_item fat16_new_fat_item_for_directory_item
  by_cases hone : !memory 1
  · rw [if_pos hone, if_pos hone]
  rw [if_neg hone, if_neg hone]
  dsimp only
  by_cases hs : item.attr &&& 0x10 ≠ 0
  · obtain ⟨directory, hload⟩ := Option.ne_none_iff_exists'.mp (h hs)
    rw [if_pos hs, hload]
    rfl
  · rw [if_neg hs]
    rfl

theorem find_item_loading (directory : FatDirectory) (name : Nat → UInt8) (n i : Nat) (found : Option Nat)
    (h : ∀ j, i ≤ j → j < i + n → Matches (directory.item j) name → Subdirectory (directory.item j) →
      fat16_load_fat_directory fuel p d kzalloc (directory.item j) ≠ none) :
    Loading.fat16_find_item_loop fuel p d kzalloc memory directory name n i
        (found.bind fun j => fat16_new_fat_item_for_directory_item (directory.item j) memory) =
      some ((fat16_find_item_loop directory name n i found).bind fun j =>
        fat16_new_fat_item_for_directory_item (directory.item j) memory) := by
  induction n generalizing i found with
  | zero => rfl
  | succ n ih =>
    have hrest := fun found => ih (i + 1) found (fun j h1 h2 => h j (by omega) (by omega))
    rw [Loading.fat16_find_item_loop, fat16_find_item_loop]
    by_cases hm : istrncmp (fat16_tmp_filename (directory.item i)) name 108 = 0
    · rw [if_pos hm, if_pos hm, new_item_loading fuel p d kzalloc memory _ (h i (Nat.le_refl i) (by omega) hm)]
      exact hrest (some i)
    · rw [if_neg hm, if_neg hm]
      exact hrest found

theorem get_entry_loading (part : Nat → UInt8) (next : List (Nat → UInt8))
    (h : ∀ j < p.root_directory.total.toNat, Matches (p.root_directory.item j) part →
      Subdirectory (p.root_directory.item j) →
      fat16_load_fat_directory fuel p d kzalloc (p.root_directory.item j) ≠ none) :
    Loading.fat16_get_directory_entry fuel p d kzalloc memory part next =
      some (fat16_get_directory_entry p part next memory) := by
  have hfind := find_item_loading fuel p d kzalloc memory p.root_directory part p.root_directory.total.toNat 0 none
    (fun j _ hj => h j (by omega))
  unfold Loading.fat16_get_directory_entry Loading.fat16_find_item_in_directory fat16_get_directory_entry
    fat16_find_item_in_directory
  rw [Option.bind_none] at hfind
  rw [hfind]
  cases fat16_find_item_loop p.root_directory part p.root_directory.total.toNat 0 none with
  | none => rfl
  | some i =>
    rw [Option.bind_some]
    unfold fat16_new_fat_item_for_directory_item
    by_cases hone : !memory 1
    · rw [if_pos hone]
    · rw [if_neg hone]
      cases next <;> rfl

end Loads

/-! ## What a load finds -/

section Volume

variable {v : Volume} {L : Layout}

theorem ofBytes_first (b : Nat → UInt8) : (FatDirectoryItem.ofBytes b).filename 0 = b 0 := rfl

theorem dir_first (hL : L.Wf) (i : Nat) (hi : i < L.rde) :
    slotFirst v.disk (L.rootPos : Nat) i = ((v.view L).dir i).filename 0 := by
  have hb := regions_below hL
  unfold Layout.dataPos at hb
  rw [slotFirst_cell L.rootPos i (by unfold Layout.rootPos; omega) (by omega)]
  simp only [Volume.view, Layout.view, if_pos hi, ofBytes_first, Nat.add_zero]

theorem clusterPos_aligned (hL : L.Wf) (c : Nat) : L.clusterPos c % 512 = 0 := by
  have hrde := hL.rde16
  unfold Layout.clusterPos Layout.dataPos Layout.rootPos Layout.clusterSize
  rw [← Nat.mul_assoc]
  omega

theorem cluster_first (hL : L.Wf) (c i : Nat) (hc : L.InRange c) (hi : i < L.clusterSize / 32) :
    slotFirst v.disk (L.clusterPos c : Nat) i = (clusterItem (v.view L) c i).filename 0 := by
  have hb := cluster_below hL c hc
  have halign := clusterPos_aligned hL c
  rw [slotFirst_cell (L.clusterPos c) i (by omega) (by omega)]
  have hin : L.InRange c ∧ 32 * i < L.clusterSize := ⟨hc, by omega⟩
  rw [clusterItem, ofBytes_first, Nat.add_zero]
  exact (if_pos hin).symm

theorem tidy_total (fuel : Nat) (alloc : Bool) (mem : Nat → UInt8) (hL : L.Wf) (hv : v.Ok L)
    (h : fat16_resolve fuel v.disk alloc mem = some (.ok v)) (k : Nat) (hk : k < L.rde)
    (hend : ((v.view L).dir k).filename 0 = 0x00) (hlive : ∀ i < k, Live ((v.view L).dir i)) :
    v.priv.root_directory.total = k := by
  obtain ⟨-, hroot⟩ := fat16_resolve_cases fuel v.disk alloc mem v h
  obtain ⟨pos, -, -, -, htotal, hpos, -, -⟩ := fat16_get_root_directory_cases fuel v.disk _ alloc mem _ hroot
  have hstart : pos * 512 = (L.rootPos : Nat) := by
    rw [← hpos, hv.mounted.sector_pos]
    unfold Layout.rootPos
    omega
  refine total_items_eq pos fuel k k _ hstart.symm htotal (Nat.le_refl k) ?_ (by omega)
    (by rw [dir_first hL k hk]; exact hend)
  intro j hj
  rw [dir_first hL j (by omega)]
  exact ⟨(hlive j hj).1, (hlive j hj).2.1⟩

theorem load_ends (fuel : Nat) (kzalloc : FatDirectoryItem → Nat → Bool) (hL : L.Wf) (hm : Mounted v.priv L)
    (item : FatDirectoryItem) (hc : L.InRange (fat16_get_first_cluster item))
    (hend : Tidy (clusterItem (v.view L) (fat16_get_first_cluster item)) (L.clusterSize / 32))
    (hfuel : L.clusterSize / 32 ≤ fuel) : fat16_load_fat_directory fuel v.priv v.disk kzalloc item ≠ none := by
  obtain ⟨k, hk, hzero, -⟩ := hend
  have hb := clusters_lt hL
  have hsector : i32 (fat16_get_first_cluster item : Int) = (fat16_get_first_cluster item : Int) := by
    have := hc.2
    exact i32_of_lt _ (by omega) (by omega)
  have hcount := total_items_ends (d := v.disk) _ fuel k
    (fat16_cluster_to_sector_spec hm hL _ hc).symm (by omega) (by rw [cluster_first hL _ k hc hk]; exact hzero)
  obtain ⟨total, htotal⟩ := Option.ne_none_iff_exists'.mp hcount
  unfold fat16_load_fat_directory
  dsimp only
  rw [hsector, htotal]
  dsimp only
  split
  · exact Option.some_ne_none _
  split
  · exact Option.some_ne_none _
  split
  · exact Option.some_ne_none _
  split
  · exact Option.some_ne_none _
  · exact Option.some_ne_none _

theorem read_first_cluster (hL : L.Wf) (hm : Mounted v.priv L) (c : Nat) (hc : L.InRange c) (total : Nat)
    (htotal : total ≤ L.clusterSize) (out : Nat → UInt8) :
    fat16_read_internal v.priv v.disk c 0 total out = (0, readAt v.disk.sector (L.clusterPos c) total out) := by
  have hb := cluster_below hL c hc
  have hspc := hL.spc_pos
  have hsize : v.priv.header.sectors_per_cluster.toNat * 512 = L.clusterSize := by
    rw [hm.spc]
    rfl
  have hpositive : 0 < L.clusterSize := by
    unfold Layout.clusterSize
    omega
  have hcluster : fat16_get_cluster_for_offset v.priv v.disk c 0 = c := by
    have heq := cluster_for_offset_eq v.priv v.disk c 0
    rw [Nat.zero_div] at heq
    exact heq
  have hpos : i32 (fat16_cluster_to_sector v.priv c * 512 + 0) = (L.clusterPos c : Int) := by
    rw [fat16_cluster_to_sector_spec hm hL c hc, i32_of_lt _ (by omega) (by omega)]
    omega
  unfold fat16_read_internal
  rw [fat16_read_internal_rec]
  simp only [hcluster, Int.zero_tmod, hpos, diskstreamer_seek, diskstreamer_new]
  rw [if_neg (by omega), if_neg (show ¬ ((total : Int) > v.priv.header.sectors_per_cluster.toNat * 512) by omega),
    diskstreamer_read_spec v.disk (L.clusterPos c) out total (by omega) (Or.inl (clusterPos_aligned hL c))]
  simp

theorem load_tidy (fuel : Nat) (hL : L.Wf) (hm : Mounted v.priv L) (item : FatDirectoryItem) (hs : Subdirectory item)
    (hc : L.InRange (fat16_get_first_cluster item)) (k : Nat) (hk : k < L.clusterSize / 32)
    (hend : (clusterItem (v.view L) (fat16_get_first_cluster item) k).filename 0 = 0x00)
    (hlive : ∀ i < k, Live (clusterItem (v.view L) (fat16_get_first_cluster item) i))
    (hfuel : L.clusterSize / 32 ≤ fuel) :
    ∃ directory, fat16_load_fat_directory fuel v.priv v.disk (fun _ _ => true) item = some (.loaded directory) ∧
      directory.total = k ∧
      ∀ i < k, directory.item i = clusterItem (v.view L) (fat16_get_first_cluster item) i := by
  obtain ⟨c, hcdef⟩ : ∃ c, fat16_get_first_cluster item = c := ⟨_, rfl⟩
  rw [hcdef] at hc hend hlive ⊢
  have hb := cluster_below hL c hc
  have hcl := clusters_lt hL
  have hclt := hc.2
  have hstart := fat16_cluster_to_sector_spec hm hL c hc
  have hcount :
      fat16_get_total_items_for_directory fuel v.disk (fat16_cluster_to_sector v.priv c) = some (k : Int) := by
    obtain ⟨total, htotal⟩ := Option.ne_none_iff_exists'.mp (total_items_ends _ fuel k
      hstart.symm (by omega) (by rw [cluster_first hL c k hc hk]; exact hend))
    have hused : ∀ j < k, slotFirst v.disk (L.clusterPos c : Nat) j ≠ 0x00 ∧
        slotFirst v.disk (L.clusterPos c : Nat) j ≠ 0xE5 := by
      intro j hj
      rw [cluster_first hL c j hc (by omega)]
      exact ⟨(hlive j hj).1, (hlive j hj).2.1⟩
    have heq := total_items_eq _ fuel k k total hstart.symm htotal (Nat.le_refl k) hused (by omega)
      (by rw [cluster_first hL c k hc hk]; exact hend)
    rw [htotal, heq]
  have hsize : i32 ((k : Int) * 32) = ((32 * k : Nat) : Int) := by
    rw [i32_of_lt _ (by omega) (by omega)]
    omega
  refine ⟨{ item := fun i => FatDirectoryItem.ofBytes fun b =>
      readAt v.disk.sector (L.clusterPos c) (32 * k) (fun _ => 0) (32 * i + b)
            total := k, sector_pos := 0, ending_sector_pos := 0 }, ?_, rfl, ?_⟩
  · unfold fat16_load_fat_directory
    dsimp only
    rw [if_neg hs, hcdef, i32_of_lt _ (by omega) (by omega), hcount]
    dsimp only
    rw [hsize, read_first_cluster hL hm c hc (32 * k) (by omega)]
    rfl
  · intro i hi
    unfold clusterItem
    dsimp only
    apply ofBytes_congr
    intro b hb32
    have hin : L.InRange c ∧ 32 * i + b < L.clusterSize := ⟨hc, by omega⟩
    rw [readAt, if_pos (by omega)]
    exact (if_pos hin).symm

theorem lookup_first (hv : v.Ok L) (k : Nat) (hk : k < L.rde) (hend : ((v.view L).dir k).filename 0 = 0x00)
    (hlive : ∀ i < k, Live ((v.view L).dir i)) (htotal : v.priv.root_directory.total = k) (part : Nat → UInt8)
    (memory : FatMemory) (hnull : ∀ it, LeadsTo L (v.view L) part [] it → it ≠ memory.null) :
    Resolves L (v.view L) part [] (fat16_get_directory_entry v.priv part [] memory) ↔
      (memory 1 = true ∧ memory 2 = true) ∨ ∀ it, ¬ LeadsTo L (v.view L) part [] it := by
  have hentry : ∀ i, IsEntry (v.view L).dir L.rde i → i < k := by
    intro i hi
    by_contra hge
    rcases Nat.eq_or_lt_of_le (Nat.le_of_not_lt hge) with rfl | hlt
    · exact hi.live.1 hend
    · exact hi.before k hlt hend
  unfold fat16_get_directory_entry fat16_find_item_in_directory
  rw [htotal, Int.toNat_natCast]
  rcases fat16_find_item_loop_spec v.priv.root_directory part k 0 none with ⟨j, heq, -, hj, hm⟩ | ⟨heq, hnone⟩
  · have hsync := hv.synced j (by omega)
    rw [heq]
    rw [hsync] at hm
    have hleads := Leads.last (L := L) (σ := v.view L) (v.view L).dir L.rde j part
      ⟨by omega, fun i hi => (hlive i (by omega)).1, hlive j (by omega)⟩ hm
    rw [← hsync] at hleads
    have hsome : ¬ ∀ it, ¬ LeadsTo L (v.view L) part [] it := fun hno => hno _ hleads
    rw [Option.bind_some, fat16_new_fat_item_for_directory_item, fat16_clone_directory_item]
    cases memory 1 with
    | false => exact iff_of_false hsome fun hor => hor.elim (fun h => absurd h.1 (by decide)) hsome
    | true =>
      cases memory 2 with
      | false =>
        have hother : ¬ LeadsTo L (v.view L) part [] memory.null := fun hto => hnull _ hto rfl
        exact iff_of_false hother fun hor => hor.elim (fun h => absurd h.2 (by decide)) hsome
      | true => exact iff_of_true hleads (Or.inl ⟨rfl, rfl⟩)
  · rw [heq]
    have hnothing : ∀ it, ¬ LeadsTo L (v.view L) part [] it := ?_
    · exact iff_of_true hnothing (Or.inr hnothing)
    intro it hit
    cases hit with
    | last _ _ i _ hi hm =>
      have hik := hentry i hi
      rw [← hv.synced i hi.lt] at hm
      exact hnone i (Nat.zero_le i) (by omega) hm
    | down _ _ i _ _ _ hi hm _ hrest => cases hrest

theorem lookup_deeper (p : FatPrivate) (part second : Nat → UInt8) (next : List (Nat → UInt8)) (memory : FatMemory) :
    fat16_get_directory_entry p part (second :: next) memory = none := by
  unfold fat16_get_directory_entry fat16_find_item_in_directory
  cases fat16_find_item_loop p.root_directory part p.root_directory.total.toNat 0 none with
  | none => rfl
  | some i =>
    rw [Option.bind_some, fat16_new_fat_item_for_directory_item]
    cases memory 1 <;> rfl

theorem lookup_ends (hv : v.Ok L) (hL : L.Wf) (htree : TidyTree L (v.view L)) (k : Nat) (hk : k < L.rde)
    (hlive : ∀ i < k, Live ((v.view L).dir i)) (htotal : v.priv.root_directory.total = k)
    (kzalloc : FatDirectoryItem → Nat → Bool) (memory : FatMemory) (part : Nat → UInt8) (next : List (Nat → UInt8))
    (m : Nat) (hm : L.clusterSize / 32 ≤ m) :
    Loading.fat16_get_directory_entry m v.priv v.disk kzalloc memory part next =
      some (fat16_get_directory_entry v.priv part next memory) := by
  refine get_entry_loading m v.priv v.disk kzalloc memory part next ?_
  intro j hj _ hsub
  rw [htotal, Int.toNat_natCast] at hj
  rw [hv.synced j (by omega)] at hsub ⊢
  obtain ⟨hrange, htidy⟩ := htree.sub j ⟨by omega, fun i hi => (hlive i (by omega)).1, hlive j hj⟩ hsub
  exact load_ends m kzalloc hL hv.mounted _ hrange htidy hm

end Volume

/-- On every tidy tree and for every path, the lookup ends, and it returns what the path leads to if and only if the
path has one part and there is memory, or leads nowhere. The bytes at address 0 are not the entry that is looked for. -/
theorem nested_paths_iff (fuel : Nat) (alloc : Bool) (mem : Nat → UInt8) (v : Volume)
    (h : fat16_resolve fuel v.disk alloc mem = some (.ok v)) (hcopies : v.priv.header.fat_copies = 2)
    (hL : (layoutOf v.priv).Wf) (htree : TidyTree (layoutOf v.priv) (v.view (layoutOf v.priv)))
    (kzalloc : FatDirectoryItem → Nat → Bool) (memory : FatMemory) (part : Nat → UInt8) (next : List (Nat → UInt8))
    (hnull : ∀ it, LeadsTo (layoutOf v.priv) (v.view (layoutOf v.priv)) part next it → it ≠ memory.null) :
    ∃ r n, (∀ m ≥ n, Loading.fat16_get_directory_entry m v.priv v.disk kzalloc memory part next = some r) ∧
      (Resolves (layoutOf v.priv) (v.view (layoutOf v.priv)) part next r ↔
        (next = [] ∧ memory 1 = true ∧ memory 2 = true) ∨
          ∀ it, ¬ LeadsTo (layoutOf v.priv) (v.view (layoutOf v.priv)) part next it) := by
  have hv := fat16_resolve_ok fuel v.disk alloc mem v h hcopies hL
  obtain ⟨L, hLdef⟩ : ∃ L, layoutOf v.priv = L := ⟨_, rfl⟩
  rw [hLdef] at hL htree hv hnull ⊢
  obtain ⟨k, hk, hend, hlive⟩ := htree.root
  have htotal := tidy_total fuel alloc mem hL hv h k hk hend hlive
  refine ⟨fat16_get_directory_entry v.priv part next memory, L.clusterSize / 32, ?_, ?_⟩
  · intro m hm
    exact lookup_ends hv hL htree k hk hlive htotal kzalloc memory part next m hm
  · cases next with
    | nil =>
      rw [lookup_first hv k hk hend hlive htotal part memory hnull, eq_self, true_and]
    | cons second next =>
      rw [lookup_deeper]
      constructor
      · exact Or.inr
      · rintro (⟨hnil, -⟩ | hnone)
        · cases hnil
        · exact hnone

theorem leads_live {L : Layout} {σ : View} {item : Nat → FatDirectoryItem} {n : Nat} {parts : List (Nat → UInt8)}
    {it : FatDirectoryItem} (h : Leads L σ item n parts it) : Live it := by
  induction h with
  | last item n i part hi => exact hi.live
  | down item n i part next it hi hm hs hrest ih => exact ih

theorem leadsTo_ne_zero {L : Layout} {σ : View} {part : Nat → UInt8} {next : List (Nat → UInt8)}
    {it : FatDirectoryItem} (h : LeadsTo L σ part next it) : it ≠ .zero := by
  rintro rfl
  exact (leads_live h).1 rfl

/-! ## A file in a subdirectory -/

/-- The subdirectory `S`, in cluster 3. -/
def nestedS : FatDirectoryItem := { fat16_new_entry (cstr [83]) with attr := 0x10, low_16_bits_first_cluster := 3 }

/-- The small disk with `S` in the root directory, and the file `B` in `S`. -/
def nestedDisk : Disk :=
  { sampleDisk with
    sector := fun i j =>
      if (i = 1 ∨ i = 2) ∧ (j : Nat) / 2 = 3 then 0xFF
      else if i = 3 ∧ 32 ≤ (j : Nat) ∧ (j : Nat) < 64 then nestedS.byte (j - 32)
      else if i = 5 ∧ (j : Nat) < 32 then (fat16_new_entry (cstr [66])).byte j
      else sampleDisk.sector i j }

def nested : Volume :=
  match fat16_resolve 4 nestedDisk true (fun _ => 0) with
  | some (.ok v) => v
  | _ => sample

theorem nested_mounts : fat16_resolve 4 nested.disk true (fun _ => 0) = some (.ok nested) := by
  have h : mountsWith (fun _ => true) (fat16_resolve 4 nestedDisk true fun _ => 0) = true := by decide +kernel
  obtain ⟨v, hv, -⟩ := mountsWith_some _ h
  have hmount : fat16_resolve 4 nestedDisk true (fun _ => 0) = some (.ok nested) := by
    unfold nested
    rw [hv]
  rw [(fat16_resolve_cases _ _ _ _ _ hmount).1]
  exact hmount

theorem nested_facts : nested.priv.header.fat_copies = 2 ∧ layoutOf nested.priv = sampleLayout ∧
    ((nested.view sampleLayout).dir 2).filename 0 = 0x00 ∧ (∀ i < 2, Live ((nested.view sampleLayout).dir i)) ∧
    ¬ Subdirectory ((nested.view sampleLayout).dir 0) ∧ Subdirectory ((nested.view sampleLayout).dir 1) ∧
    fat16_get_first_cluster ((nested.view sampleLayout).dir 1) = 3 ∧
    Matches ((nested.view sampleLayout).dir 1) (cstr [83]) ∧
    Live (clusterItem (nested.view sampleLayout) 3 0) ∧
    Matches (clusterItem (nested.view sampleLayout) 3 0) (cstr [66]) ∧
    (clusterItem (nested.view sampleLayout) 3 1).filename 0 = 0x00 := by
  decide +kernel

theorem nested_tidy : TidyTree sampleLayout (nested.view sampleLayout) := by
  obtain ⟨-, -, hend, hlive, hfile, -, hcluster, -, hB, -, hzero⟩ := nested_facts
  have hrde : sampleLayout.rde = 16 := by
    rw [sampleLayout_eq]
  have hslots : sampleLayout.clusterSize / 32 = 16 := by
    rw [sampleLayout_eq]
    rfl
  refine ⟨⟨2, by omega, hend, hlive⟩, ?_⟩
  intro i hi hsub
  have hlt : i < 2 := by
    by_contra hge
    rcases Nat.eq_or_lt_of_le (Nat.le_of_not_lt hge) with rfl | hlt
    · exact hi.live.1 hend
    · exact hi.before 2 hlt hend
  obtain rfl : i = 1 := by
    rcases (by omega : i = 0 ∨ i = 1) with rfl | rfl
    · exact absurd hsub hfile
    · rfl
  rw [hcluster]
  refine ⟨by rw [sampleLayout_eq]; decide, 1, by omega, hzero, ?_⟩
  intro j hj
  rwa [show j = 0 by omega]

theorem nested_one_part : ∃ r n,
    (∀ m ≥ n, Loading.fat16_get_directory_entry m nested.priv nested.disk (fun _ _ => true) .enough (cstr [83]) [] =
      some r) ∧ Resolves (layoutOf nested.priv) (nested.view (layoutOf nested.priv)) (cstr [83]) [] r := by
  obtain ⟨hcopies, hlayout, -⟩ := nested_facts
  have hL : (layoutOf nested.priv).Wf := by
    rw [hlayout]
    exact sample_wf
  have htree : TidyTree (layoutOf nested.priv) (nested.view (layoutOf nested.priv)) := by
    rw [hlayout]
    exact nested_tidy
  obtain ⟨r, n, hends, hiff⟩ := nested_paths_iff 4 true (fun _ => 0) nested nested_mounts hcopies hL htree
    (fun _ _ => true) .enough (cstr [83]) [] fun it hit => leadsTo_ne_zero hit
  exact ⟨r, n, hends, hiff.mpr (Or.inl ⟨rfl, rfl, rfl⟩)⟩

/-- The path `S/B` leads to the file `B`, and the lookup returns null. -/
theorem nested_lost : fat16_resolve 4 nested.disk true (fun _ => 0) = some (.ok nested) ∧
    TidyTree (layoutOf nested.priv) (nested.view (layoutOf nested.priv)) ∧
    (∃ it, LeadsTo (layoutOf nested.priv) (nested.view (layoutOf nested.priv)) (cstr [83]) [cstr [66]] it) ∧
    ∀ m ≥ 16, Loading.fat16_get_directory_entry m nested.priv nested.disk (fun _ _ => true) .enough (cstr [83])
      [cstr [66]] = some none := by
  obtain ⟨hcopies, hlayout, hend, hlive, -, hsub, hcluster, hS, hB, hname, -⟩ := nested_facts
  have hL : (layoutOf nested.priv).Wf := by
    rw [hlayout]
    exact sample_wf
  have hv := fat16_resolve_ok _ _ _ _ nested nested_mounts hcopies hL
  rw [hlayout] at hv ⊢
  have hslots : sampleLayout.rde = 16 ∧ sampleLayout.clusterSize / 32 = 16 := by
    rw [sampleLayout_eq]
    exact ⟨rfl, rfl⟩
  have htotal := tidy_total 4 true (fun _ => 0) sample_wf hv nested_mounts 2 (by omega) hend hlive
  refine ⟨nested_mounts, nested_tidy, ⟨clusterItem (nested.view sampleLayout) 3 0, ?_⟩, ?_⟩
  · refine .down _ _ 1 _ _ _ ⟨by omega, fun i hi => (hlive i (by omega)).1, hlive 1 (by omega)⟩ hS hsub ?_
    rw [hcluster]
    exact .last _ _ 0 _ ⟨by omega, fun i hi => by omega, hB⟩ hname
  · intro m hm
    rw [lookup_ends hv sample_wf nested_tidy 2 (by omega) hlive htotal _ _ _ _ m (by omega), lookup_deeper]

end PeachOS.Fat
