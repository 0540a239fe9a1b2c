import PeachOS.Fat.Count
import PeachOS.Fat.Creation

/-!
# The bound of the root directory, and listings

The count at mount ends at a never-used slot, which a full directory does not have. A listing clears its buffer and then
writes the whole name, whatever the size of the buffer is.
-/

open PeachOS.Lib

namespace PeachOS.Fat

/-! ## Calls -/

/-- The number of entries and the header, before and after. -/
def BoundKept (p p' : FatPrivate) : Prop :=
  p'.header = p.header ∧ (p'.root_directory.total = p.root_directory.total ∨
    ∃ slot < p.header.root_dir_entries.toNat, p'.root_directory.total = slot + 1)

theorem boundKept_open (v : Volume) (name : Nat → UInt8) (kzalloc : FatMemory) :
    BoundKept v.priv (fat16_open_write v name kzalloc).1.priv := by
  rcases open_write_cases v name kzalloc with ⟨slot, heq⟩ | ⟨slot, hc, heq⟩ | heq
  · rw [heq]
    exact ⟨rfl, Or.inl rfl⟩
  · rw [heq]
    refine ⟨open_create_header name slot, ?_⟩
    have hlt := (creates_spec hc).1
    unfold fat16_open_create
    dsimp only
    split
    · exact Or.inr ⟨slot, hlt, rfl⟩
    · exact Or.inl rfl
  · rw [heq]
    exact ⟨rfl, Or.inl rfl⟩

theorem boundKept_write (v : Volume) (desc : FatFileDescriptor) (size nmemb : Nat) (buf : Nat → UInt8) :
    BoundKept v.priv (fat16_write v desc size nmemb buf).2.1.priv := by
  unfold fat16_write
  dsimp only
  split
  · exact ⟨rfl, Or.inl rfl⟩
  · split
    · exact ⟨rfl, Or.inl rfl⟩
    · exact ⟨rfl, Or.inl rfl⟩

theorem boundKept_delete (v : Volume) (name : Nat → UInt8) : BoundKept v.priv (fat16_delete v name).2.priv := by
  unfold fat16_delete
  dsimp only
  split
  · exact ⟨rfl, Or.inl rfl⟩
  · exact ⟨rfl, Or.inl rfl⟩

theorem boundKept_step (s : Sys) (call : Call) : BoundKept s.vol.priv (s.step call).vol.priv := by
  cases call with
  | open_ part next kzalloc =>
    have hvol : (s.step (.open_ part next kzalloc)).vol = (fat16_open_write s.vol part kzalloc).1 := by
      unfold Sys.step fat16_open
      dsimp only
      split <;> rfl
    rw [hvol]
    exact boundKept_open s.vol part kzalloc
  | write fd size nmemb buf =>
    unfold Sys.step
    dsimp only
    split
    · exact boundKept_write _ _ _ _ _
    · exact ⟨rfl, Or.inl rfl⟩
  | close fd => exact ⟨rfl, Or.inl rfl⟩
  | delete part => exact boundKept_delete s.vol part

theorem bound_run (n : Nat) (s : Sys) (calls : List Call) (hn : s.vol.priv.header.root_dir_entries.toNat = n)
    (h : 0 ≤ s.vol.priv.root_directory.total ∧ s.vol.priv.root_directory.total ≤ n) :
    0 ≤ (calls.foldl Sys.step s).vol.priv.root_directory.total ∧
      (calls.foldl Sys.step s).vol.priv.root_directory.total ≤ n := by
  refine (foldl_keeps (fun s : Sys => s.vol.priv.header.root_dir_entries.toNat = n ∧
    0 ≤ s.vol.priv.root_directory.total ∧ s.vol.priv.root_directory.total ≤ n) ?_ calls s ⟨hn, h⟩).2
  rintro s call ⟨hn, h0, hle⟩
  obtain ⟨hheader, htotal⟩ := boundKept_step s call
  rw [hheader]
  refine ⟨hn, ?_⟩
  rcases htotal with heq | ⟨slot, hlt, heq⟩
  · rw [heq]
    exact ⟨h0, hle⟩
  · omega

/-- The bound is safe exactly if the root directory has a never-used slot when it is mounted. -/
theorem directory_bound_iff (fuel : Nat) (d : Disk) (alloc : Bool) (mem : Nat → UInt8) (v : Volume)
    (h : fat16_resolve fuel d alloc mem = some (.ok v)) :
    BoundSafe d v ↔ ∃ i < v.priv.header.root_dir_entries.toNat,
      slotFirst d (rootSector v.priv.header * 512) i = 0x00 := by
  obtain ⟨-, hroot⟩ := fat16_resolve_cases fuel d alloc mem v h
  obtain ⟨pos, -, hpos, -, htotal, -⟩ := fat16_get_root_directory_cases fuel d _ alloc mem _ hroot
  rw [hpos] at htotal
  have htotal : fat16_get_total_items_for_directory fuel d (rootSector v.priv.header) =
      some v.priv.root_directory.total := htotal
  have hbounded : fat16_get_total_items_for_directory v.priv.header.root_dir_entries.toNat d
      (rootSector v.priv.header) ≠ none ↔ ∃ i < v.priv.header.root_dir_entries.toNat,
        slotFirst d (rootSector v.priv.header * 512) i = 0x00 := by
    rcases total_items_spec (d := d) (rootSector v.priv.header) v.priv.header.root_dir_entries.toNat rfl with
      ⟨n, hn, heq⟩ | ⟨heq, hall⟩
    · rw [heq]
      exact iff_of_true (Option.some_ne_none _) ⟨n, by have := hn.lt; omega, hn.holds⟩
    · rw [heq]
      exact iff_of_false (fun h => h rfl) (fun ⟨i, hi, hzero⟩ => hall i hi hzero)
  rw [← hbounded]
  refine ⟨fun hsafe => hsafe.counted, fun hcounted => ⟨hcounted, fun calls => ?_⟩⟩
  obtain ⟨i, hi, hzero⟩ := hbounded.mp hcounted
  rcases total_items_spec (d := d) (rootSector v.priv.header) fuel rfl with ⟨n, hn, heq⟩ | ⟨heq, -⟩
  · -- The count has ended at or before slot `i`.
    have hle : n ≤ i := by
      by_contra hlt
      exact hn.before i (Nat.zero_le i) (by omega) hzero
    have huse := inUse_le d (rootSector v.priv.header * 512) 0 n
    rw [heq] at htotal
    have hvalue := Option.some.inj htotal
    refine bound_run _ _ calls rfl ?_
    change 0 ≤ v.priv.root_directory.total ∧ v.priv.root_directory.total ≤ _
    omega
  · rw [heq] at htotal
    cases htotal

theorem sample_bound : BoundSafe sampleDisk sample :=
  (directory_bound_iff 3 sampleDisk true (fun _ => 0) sample sample_mounts).mpr (by decide +kernel)

/-- The small disk with a full root directory, and with a byte that is not zero behind it. -/
def fullDisk : Disk :=
  { sampleDisk with sector := fun i j => if i = 3 ∨ (i = 4 ∧ (j : Nat) = 0) then 0x41 else sampleDisk.sector i j }

def fullVolume : Volume :=
  match fat16_resolve 18 fullDisk true (fun _ => 0) with
  | some (.ok v) => v
  | _ => sample

theorem fullDisk_total : mountsWith (fun _ => true) (fat16_resolve 18 fullDisk true fun _ => 0) = true ∧
    fullVolume.priv.root_directory.total = 17 ∧ fullVolume.priv.header.root_dir_entries = 16 := by
  decide +kernel

/-- Its directory has 16 slots, and 17 are counted. -/
theorem fullDisk_overruns : fat16_resolve 18 fullDisk true (fun _ => 0) = some (.ok fullVolume) ∧
    fullVolume.priv.root_directory.total = 17 ∧ fullVolume.priv.header.root_dir_entries = 16 ∧
    ¬ BoundSafe fullDisk fullVolume := by
  obtain ⟨hok, htotal, hrde⟩ := fullDisk_total
  refine ⟨?_, htotal, hrde, fun hsafe => ?_⟩
  · obtain ⟨v, hv, -⟩ := mountsWith_some _ hok
    unfold fullVolume
    rw [hv]
  · have hle : fullVolume.priv.root_directory.total ≤ _ := (hsafe.bound []).2
    rw [htotal, hrde] at hle
    exact absurd hle (by decide)

/-! ## Listing -/

theorem fat16_readdir_loop_eq (p : FatPrivate) (index : Int) (n i : Nat) (count : Int) :
    fat16_readdir_loop p index n i count = if index < count then none else
      (((List.range' i n).takeWhile fun i => (p.root_directory.item i).filename 0 ≠ 0x00).filter
        fun i => (p.root_directory.item i).filename 0 ≠ 0xE5 ∧ (p.root_directory.item i).attr &&& 0x18 = 0)[
          (index - count).toNat]? := by
  induction n generalizing i count with
  | zero => simp [fat16_readdir_loop]
  | succ n ih =>
    rw [fat16_readdir_loop, List.range'_succ]
    by_cases h0 : (p.root_directory.item i).filename 0 = 0x00
    · rw [if_pos h0, List.takeWhile_cons_of_neg (by simp [h0])]
      simp
    rw [if_neg h0, List.takeWhile_cons_of_pos (by simp [h0])]
    by_cases hskip : (p.root_directory.item i).filename 0 = 0xE5 ∨ (p.root_directory.item i).attr &&& 0x18 ≠ 0
    · rw [List.filter_cons_of_neg (by simpa [← imp_iff_not_or, or_iff_not_imp_left] using hskip), ← ih]
      rcases hskip with h5 | ha
      · rw [if_pos h5]
      · rw [if_pos ha, ite_self]
    · rw [not_or, not_not] at hskip
      rw [List.filter_cons_of_pos (by simpa using hskip), if_neg hskip.1, if_neg (not_not_intro hskip.2)]
      rcases Int.lt_trichotomy index count with hlt | rfl | hgt
      · rw [if_neg (by omega), ih, if_pos (by omega), if_pos hlt]
      · rw [if_pos rfl, if_neg (by omega), Int.sub_self]
        rfl
      · rw [if_neg (by omega), ih, if_neg (by omega), if_neg (by omega),
          show (index - count).toNat = (index - (count + 1)).toNat + 1 by omega, List.getElem?_cons_succ]

theorem readdir_loop_listed (p : FatPrivate) (index : Int) :
    fat16_readdir_loop p index p.header.root_dir_entries.toNat 0 0 = listedSlot p index := by
  rw [fat16_readdir_loop_eq, Int.sub_zero, ← List.range_eq_range']
  rfl

section Readdir

variable {p : FatPrivate} {index : Int} (buf : Nat → UInt8) (buf_size : Nat)

theorem readdir_some {slot : Nat} (h : listedSlot p index = some slot) : fat16_readdir p index buf buf_size =
    (1, fat16_get_full_relative_filename (p.root_directory.item slot) buf buf_size) := by
  unfold fat16_readdir
  rw [readdir_loop_listed, h]

theorem readdir_none (h : listedSlot p index = none) : fat16_readdir p index buf buf_size = (0, buf) := by
  unfold fat16_readdir
  rw [readdir_loop_listed, h]

end Readdir

theorem entryName_no_nul (it : FatDirectoryItem) : 0 ∉ entryName it := by
  rw [entryName_joinName]
  exact inField_joinName _ _ (takeWhile_no_nul _) (takeWhile_no_nul _)

/-- A listing is safe exactly if the name that it shows, with its NUL, fits the buffer. -/
theorem listing_safe_iff (p : FatPrivate) (index : Int) (buf_size : Nat) :
    ListsSafely p index buf_size ↔
      ∀ slot, listedSlot p index = some slot → (entryName (p.root_directory.item slot)).length < buf_size := by
  constructor
  · intro h slot hslot
    have hnul := (h fun _ => 0).2
    rw [readdir_some _ _ hslot] at hnul
    obtain ⟨i, hi, hzero⟩ := hnul rfl
    dsimp only at hzero
    rw [fat16_get_full_relative_filename_spec _ _ _ _ hi, cstr_eq_zero _ (entryName_no_nul _)] at hzero
    omega
  · intro h buf
    rcases hslot : listedSlot p index with _ | slot
    · rw [readdir_none _ _ hslot]
      exact ⟨fun _ _ => rfl, fun hone => absurd hone (by simp)⟩
    · have hlen := h slot hslot
      rw [readdir_some _ _ hslot]
      refine ⟨fun i hi => filename_frame _ buf buf_size i (by omega) hi, fun _ => ⟨_, hlen, ?_⟩⟩
      dsimp only
      rw [fat16_get_full_relative_filename_spec _ _ _ _ hlen]
      exact cstr_length _ _ (Nat.le_refl _)

/-- The name A and its NUL do not fit a buffer of one byte. -/
theorem sample_listing_overruns : (fat16_readdir sample.priv 0 (fun _ => 0xFF) 1).1 = 1 ∧
    (fat16_readdir sample.priv 0 (fun _ => 0xFF) 1).2 0 = 0x41 ∧
    (fat16_readdir sample.priv 0 (fun _ => 0xFF) 1).2 1 = 0x00 ∧ ¬ ListsSafely sample.priv 0 1 := by
  have hrun : (fat16_readdir sample.priv 0 (fun _ => 0xFF) 1).1 = 1 ∧
      (fat16_readdir sample.priv 0 (fun _ => 0xFF) 1).2 0 = 0x41 ∧
      (fat16_readdir sample.priv 0 (fun _ => 0xFF) 1).2 1 = 0x00 := by decide +kernel
  refine ⟨hrun.1, hrun.2.1, hrun.2.2, fun h => ?_⟩
  have hkeep := (h fun _ => 0xFF).1 1 (Nat.le_refl 1)
  rw [hrun.2.2] at hkeep
  exact absurd hkeep (by decide)

end PeachOS.Fat
