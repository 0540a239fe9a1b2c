import PeachOS.Spec.Opening
import PeachOS.Files.Table

/-!
# Opens that fail

`fat16_open` changes the volume before it allocates the descriptor, and `fopen` looks for a slot in the descriptor
table after that. So an open for writing can fail when the file is already empty or created.
-/

open PeachOS.Lib

namespace PeachOS.Files

variable {s : Vfs} {filename : CString} {mode_str : Nat → UInt8} {memory : OpenMemory} {v : Volume}
  {part : Nat → UInt8}

/-! ## The calls of `fopen` -/

theorem fopen_of_full (s : Vfs) (filename : CString) (mode_str : Nat → UInt8) (memory : OpenMemory)
    (file : FatFileDescriptor) (h : (s.fopen_private filename mode_str memory).2 = .ok file)
    (hfull : ∀ i < PEACHOS_MAX_FILE_DESCRIPTORS, s.file_descriptors i ≠ 0) :
    s.fopen filename mode_str memory =
      (0, { s with vol := (s.fopen_private filename mode_str memory).1 }) := by
  have hneg : -ENOMEM < 0 := by decide
  have hloop : Vfs.file_new_descriptor_loop { s with vol := (s.fopen_private filename mode_str memory).1 }
      PEACHOS_MAX_FILE_DESCRIPTORS 0 = -ENOMEM := by
    rcases file_new_descriptor_loop_spec { s with vol := (s.fopen_private filename mode_str memory).1 }
      PEACHOS_MAX_FILE_DESCRIPTORS 0 with ⟨j, -, hj⟩ | ⟨hnone, -⟩
    · have hlt := hj.lt
      exact absurd hj.holds (hfull j (by omega))
    · exact hnone
  unfold Vfs.fopen Vfs.fopen_res
  simp only [h, Vfs.file_new_descriptor, hloop, hneg, if_true]

theorem fopen_cases (s : Vfs) (filename : CString) (mode_str : Nat → UInt8) (memory : OpenMemory) :
    (s.fopen filename mode_str memory = (0, { s with vol := (s.fopen_private filename mode_str memory).1 }) ∧
      ((∃ e, (s.fopen_private filename mode_str memory).2 = .error e) ∨
        ∀ i < PEACHOS_MAX_FILE_DESCRIPTORS, s.file_descriptors i ≠ 0)) ∨
    ∃ file j, (s.fopen_private filename mode_str memory).2 = .ok file ∧
      First (fun m => s.file_descriptors m = 0) 0 PEACHOS_MAX_FILE_DESCRIPTORS j ∧
      s.fopen filename mode_str memory =
        ((j : Int) + 1, withFile s (s.fopen_private filename mode_str memory).1 j memory.desc file) := by
  cases hopen : (s.fopen_private filename mode_str memory).2 with
  | error e => exact Or.inl ⟨fopen_of_error s filename mode_str memory e hopen, Or.inl ⟨e, rfl⟩⟩
  | ok file =>
    rcases file_new_descriptor_loop_spec s PEACHOS_MAX_FILE_DESCRIPTORS 0 with ⟨j, -, hj⟩ | ⟨-, hfull⟩
    · exact Or.inr ⟨file, j, rfl, hj, fopen_of_ok s filename mode_str memory file j hopen hj⟩
    · have hall : ∀ i < PEACHOS_MAX_FILE_DESCRIPTORS, s.file_descriptors i ≠ 0 :=
        fun i hi => hfull i (Nat.zero_le i) (by omega)
      exact Or.inl ⟨fopen_of_full s filename mode_str memory file hopen hall, Or.inr hall⟩

theorem writeTarget_none (h : s.writeTarget filename mode_str memory = none) :
    (s.fopen_private filename mode_str memory).1 = s.vol := by
  unfold Vfs.writeTarget at h
  unfold Vfs.fopen_private
  split
  · rfl
  · rename_i root_path hparse
    rw [hparse] at h
    dsimp only at h
    split
    · rfl
    · rename_i part next hparts
      rw [hparts] at h
      dsimp only at h
      split
      · rfl
      · split
        · rfl
        · rename_i hdrive hfs
          have hmode : file_get_mode_by_string mode_str ≠ .write := by
            intro hm
            rw [if_pos ⟨by simpa using hdrive, by simpa using hfs, hm⟩] at h
            cases h
          dsimp only
          cases hm : file_get_mode_by_string mode_str with
          | write => exact absurd hm hmode
          | read => rfl
          | append => rfl
          | invalid => rfl

theorem writeTarget_some (h : s.writeTarget filename mode_str memory = some part) :
    s.fopen_private filename mode_str memory = fat16_open_write s.vol part memory.fs := by
  unfold Vfs.writeTarget at h
  split at h
  · cases h
  · rename_i root_path hparse
    split at h
    · cases h
    · rename_i first next hparts
      split at h
      · rename_i hall
        obtain ⟨hdrive, hfs, hmode⟩ := hall
        unfold Vfs.fopen_private
        rw [hparse]
        dsimp only
        rw [hparts]
        dsimp only
        rw [if_neg (by simpa using hdrive), hfs, hmode, ← Option.some.inj h]
        rfl
      · cases h

/-! ## What an open for writing changes -/

theorem setItem_self (p : FatPrivate) (slot : Nat) : p.setItem slot (p.root_directory.item slot) = p := by
  unfold FatPrivate.setItem
  have hitem : (fun i => if i = slot then p.root_directory.item slot else p.root_directory.item i) =
      p.root_directory.item := by
    funext i
    split
    · rename_i hi
      rw [hi]
    · rfl
  rw [hitem]

theorem store_same_iff (v : Volume) (slot : Nat) (it : FatDirectoryItem) :
    ((fat16_store_entry v slot it).disk.sector = v.disk.sector ∧
      (fat16_store_entry v slot it).priv.root_directory = v.priv.root_directory) ↔ Vfs.Stored v slot it := by
  unfold Vfs.Stored
  constructor
  · rintro ⟨hdisk, hroot⟩
    have hitem : v.priv.root_directory.item slot = it := by
      have h := congrArg (fun r => FatDirectory.item r slot) hroot
      simp only [fat16_store_entry, FatPrivate.setItem, if_true] at h
      exact h.symm
    refine ⟨hitem, ?_⟩
    rw [← hitem] at hdisk
    unfold fat16_store_entry at hdisk
    rwa [setItem_self] at hdisk
  · rintro ⟨rfl, hdisk⟩
    unfold fat16_store_entry
    rw [setItem_self]
    exact ⟨hdisk, rfl⟩

theorem truncate_same_iff (v : Volume) (slot : Nat) :
    ((fat16_open_truncate v slot).disk.sector = v.disk.sector ∧
      (fat16_open_truncate v slot).priv.root_directory = v.priv.root_directory) ↔
    Vfs.Stored v slot (emptied (v.priv.root_directory.item slot)) := by
  have hfree : v.priv.root_directory.item slot = emptied (v.priv.root_directory.item slot) →
      fat16_open_truncate v slot =
        fat16_store_entry v slot (emptied (v.priv.root_directory.item slot)) := by
    intro hempty
    have hfirst : ¬ fat16_get_first_cluster (v.priv.root_directory.item slot) ≥ 2 := by
      rw [hempty]
      simp [fat16_get_first_cluster, emptied]
    unfold fat16_open_truncate
    dsimp only
    rw [if_neg hfirst]
  constructor
  · rintro ⟨hdisk, hroot⟩
    have hempty : v.priv.root_directory.item slot = emptied (v.priv.root_directory.item slot) := by
      have h := congrArg (fun r => FatDirectory.item r slot) hroot
      simp only [fat16_open_truncate, fat16_store_entry, FatPrivate.setItem, if_true] at h
      exact h.symm
    rw [hfree hempty] at hdisk hroot
    exact (store_same_iff v slot _).mp ⟨hdisk, hroot⟩
  · intro h
    rw [hfree h.1]
    exact (store_same_iff v slot _).mpr h

theorem create_same_iff (v : Volume) (slot : Nat) (name : Nat → UInt8) :
    ((fat16_open_create v slot name).disk.sector = v.disk.sector ∧
      (fat16_open_create v slot name).priv.root_directory = v.priv.root_directory) ↔
    Vfs.Stored v slot (fat16_new_entry name) ∧ (slot : Int) < v.priv.root_directory.total := by
  have htotal : (fat16_store_entry v slot (fat16_new_entry name)).priv.root_directory.total =
      v.priv.root_directory.total := rfl
  unfold fat16_open_create
  dsimp only
  rw [htotal]
  by_cases hlt : (slot : Int) ≥ v.priv.root_directory.total
  · rw [if_pos hlt]
    constructor
    · rintro ⟨-, hroot⟩
      have h := congrArg FatDirectory.total hroot
      dsimp only at h
      omega
    · rintro ⟨-, h⟩
      omega
  · rw [if_neg hlt, store_same_iff]
    exact ⟨fun h => ⟨h, by omega⟩, fun h => h.1⟩

theorem open_write_same_iff (v : Volume) (part : Nat → UInt8) (kzalloc : FatMemory) :
    ((fat16_open_write v part kzalloc).1.disk.sector = v.disk.sector ∧
      (fat16_open_write v part kzalloc).1.priv.root_directory = v.priv.root_directory) ↔ Vfs.Idle v part := by
  unfold fat16_open_write Vfs.Idle
  dsimp only
  by_cases hslot : fat16_find_root_dir_slot_by_name v.priv part ≥ 0
  · rw [if_pos hslot, if_pos hslot]
    exact truncate_same_iff v _
  · rw [if_neg hslot, if_neg hslot]
    by_cases hfree : fat16_find_free_root_dir_slot v.priv < 0
    · rw [if_pos hfree]
      exact ⟨fun _ => Or.inl hfree, fun _ => ⟨rfl, rfl⟩⟩
    · rw [if_neg hfree, create_same_iff, Int.toNat_of_nonneg (by omega)]
      exact ⟨Or.inr, fun h => h.resolve_left hfree⟩

theorem open_write_error (v : Volume) (part : Nat → UInt8) (kzalloc : FatMemory) (e : Int)
    (h : (fat16_open_write v part kzalloc).2 = .error e) (hkz : kzalloc 0 ∧ kzalloc 1 ∧ kzalloc 2) :
    Vfs.Idle v part := by
  have hdesc : ∀ v slot, ∃ file, fat16_open_descriptor v slot kzalloc = .ok file := by
    intro v slot
    unfold fat16_open_descriptor
    simp [hkz.1, hkz.2.1, hkz.2.2]
  unfold fat16_open_write at h
  unfold Vfs.Idle
  dsimp only at h ⊢
  split at h
  · obtain ⟨file, hok⟩ := hdesc _ (fat16_find_root_dir_slot_by_name v.priv part).toNat
    rw [hok] at h
    cases h
  · rename_i hslot
    rw [if_neg hslot]
    split at h
    · rename_i hfree
      exact Or.inl hfree
    · obtain ⟨file, hok⟩ := hdesc _ (fat16_find_free_root_dir_slot v.priv).toNat
      rw [hok] at h
      cases h

theorem open_write_ok (v : Volume) (part : Nat → UInt8) (kzalloc : FatMemory) (file : FatFileDescriptor)
    (h : (fat16_open_write v part kzalloc).2 = .ok file) : kzalloc 0 ∧ kzalloc 1 ∧ kzalloc 2 := by
  have hdesc : ∀ v slot, fat16_open_descriptor v slot kzalloc = .ok file → kzalloc 0 ∧ kzalloc 1 ∧ kzalloc 2 := by
    intro v slot hok
    unfold fat16_open_descriptor at hok
    grind
  unfold fat16_open_write at h
  dsimp only at h
  split at h
  · exact hdesc _ _ h
  · split at h
    · cases h
    · exact hdesc _ _ h

/-! ## Opens that return 0 -/

theorem fopen_zero_iff (s : Vfs) (filename : CString) (mode_str : Nat → UInt8) (memory : OpenMemory) :
    (s.fopen filename mode_str memory).1 = 0 ↔
      (∃ e, (s.fopen_private filename mode_str memory).2 = .error e) ∨
        ∀ i < PEACHOS_MAX_FILE_DESCRIPTORS, s.file_descriptors i ≠ 0 := by
  rcases fopen_cases s filename mode_str memory with ⟨heq, hwhy⟩ | ⟨file, j, hok, hj, heq⟩
  · rw [heq]
    exact ⟨fun _ => hwhy, fun _ => rfl⟩
  · rw [heq, hok]
    constructor
    · intro h
      dsimp only at h
      omega
    · rintro (⟨e, he⟩ | hfull)
      · cases he
      · have hlt := hj.lt
        exact absurd hj.holds (hfull j (by omega))

theorem fopen_zero_state (h : (s.fopen filename mode_str memory).1 = 0) :
    (s.fopen filename mode_str memory).2 = { s with vol := (s.fopen_private filename mode_str memory).1 } := by
  rcases fopen_cases s filename mode_str memory with ⟨heq, -⟩ | ⟨file, j, -, -, heq⟩
  · rw [heq]
  · rw [heq] at h
    dsimp only at h
    omega

/-- A failed `fopen` changes nothing exactly if it does not try to write, or it does not fail for want of memory or
of a descriptor, or there was nothing to change. -/
theorem failed_fopen_clean_iff (s : Vfs) (filename : CString) (mode_str : Nat → UInt8) (memory : OpenMemory) :
    s.FailsClean filename mode_str memory ↔
      ∀ part, s.writeTarget filename mode_str memory = some part → s.Room memory ∨ Vfs.Idle s.vol part := by
  unfold Vfs.FailsClean
  constructor
  · intro hclean part htarget
    have hopen := writeTarget_some htarget
    by_cases hfail : (s.fopen filename mode_str memory).1 = 0
    · have hsame := hclean hfail
      rw [fopen_zero_state hfail] at hsame
      refine Or.inr ((open_write_same_iff s.vol part memory.fs).mp ?_)
      rw [← hopen]
      exact ⟨hsame.disk, hsame.root⟩
    · rw [fopen_zero_iff, not_or, hopen] at hfail
      obtain ⟨hok, hfree⟩ := hfail
      refine Or.inl ?_
      cases hres : (fat16_open_write s.vol part memory.fs).2 with
      | error e => exact absurd ⟨e, hres⟩ hok
      | ok file =>
        obtain ⟨h0, h1, h2⟩ := open_write_ok _ _ _ file hres
        push Not at hfree
        exact ⟨h0, h1, h2, hfree⟩
  · intro hcond hfail
    rw [fopen_zero_state hfail]
    cases htarget : s.writeTarget filename mode_str memory with
    | none =>
      rw [writeTarget_none htarget]
      exact ⟨rfl, rfl, rfl⟩
    | some part =>
      have hopen := writeTarget_some htarget
      have hidle : Vfs.Idle s.vol part := by
        rcases hcond part htarget with ⟨h0, h1, h2, i, hi, hz⟩ | hidle
        · rcases (fopen_zero_iff s filename mode_str memory).mp hfail with ⟨e, he⟩ | hfull
          · rw [hopen] at he
            exact open_write_error s.vol part memory.fs e he ⟨h0, h1, h2⟩
          · exact absurd hz (hfull i hi)
        · exact hidle
      rw [hopen]
      obtain ⟨hdisk, hroot⟩ := (open_write_same_iff s.vol part memory.fs).mpr hidle
      exact ⟨hdisk, hroot, rfl⟩

/-- The small volume with no descriptor in use. -/
def sampleVfs : Vfs := .fs_init sample true fun _ => ⟨0, noFile⟩

/-- `kzalloc` has memory for the path, and no more. -/
def noMemory : OpenMemory := ⟨fun _ => true, ⟨fun _ => false, .zero⟩, 0⟩

/-- `fopen("0:/A", "w")` returns 0, and the file `A` is empty. -/
theorem sampleVfs_truncated : (sampleVfs.fopen pathA (cstr [0x77]) noMemory).1 = 0 ∧
    ((sampleVfs.fopen pathA (cstr [0x77]) noMemory).2.vol.priv.root_directory.item 0).filesize = 0 ∧
    (sampleVfs.vol.priv.root_directory.item 0).filesize = 3 ∧
    ¬ sampleVfs.FailsClean pathA (cstr [0x77]) noMemory := by
  have heval : (sampleVfs.fopen pathA (cstr [0x77]) noMemory).1 = 0 ∧
      ((sampleVfs.fopen pathA (cstr [0x77]) noMemory).2.vol.priv.root_directory.item 0).filesize = 0 ∧
      (sampleVfs.vol.priv.root_directory.item 0).filesize = 3 := by decide +kernel
  obtain ⟨hres, hnew, hold⟩ := heval
  refine ⟨hres, hnew, hold, fun h => ?_⟩
  rw [(h hres).root, hold] at hnew
  exact absurd hnew (by decide)

/-! ## Files opened for reading -/

theorem fopen_read_vol (s : Vfs) (filename : CString) (mode_str : Nat → UInt8) (memory : OpenMemory)
    (hmode : file_get_mode_by_string mode_str = .read) : (s.fopen filename mode_str memory).2.vol = s.vol := by
  have htarget : s.writeTarget filename mode_str memory = none := by
    unfold Vfs.writeTarget
    simp only [hmode]
    split
    · rfl
    · split
      · rfl
      · simp
  have hvol := writeTarget_none htarget
  rcases fopen_cases s filename mode_str memory with ⟨heq, -⟩ | ⟨file, j, -, -, heq⟩
  · rw [heq]
    exact hvol
  · rw [heq]
    exact hvol

theorem fopen_private_read (hmode : file_get_mode_by_string mode_str = .read) (file : FatFileDescriptor)
    (h : (s.fopen_private filename mode_str memory).2 = .ok file) : file.root_dir_slot = -1 := by
  unfold Vfs.fopen_private at h
  split at h
  · cases h
  · split at h
    · cases h
    · split at h
      · cases h
      · split at h
        · cases h
        · simp only [hmode, reduceCtorEq, if_false, fat16_open, fat16_open_read] at h
          split at h
          · cases h
          · split at h
            · cases h
            · cases h
              rfl

/-- No slot of the root directory is written through the number `fd`. -/
def NoSlot (fd : Int) (s : Vfs) : Prop := s.file_get_descriptor fd = 0 ∨ (s.priv fd).root_dir_slot = -1

theorem noSlot_fopen (hmode : file_get_mode_by_string mode_str = .read) :
    NoSlot (s.fopen filename mode_str memory).1 (s.fopen filename mode_str memory).2 := by
  rcases fopen_cases s filename mode_str memory with ⟨heq, -⟩ | ⟨file, j, hok, -, heq⟩
  · rw [heq]
    exact Or.inl rfl
  · rw [heq]
    by_cases hlast : j < 511
    · right
      unfold Vfs.priv
      rw [get_descriptor_of_lt _ j hlast]
      simp only [withFile, if_true]
      exact fopen_private_read hmode file hok
    · -- the number of the last slot is refused
      left
      unfold Vfs.file_get_descriptor PEACHOS_MAX_FILE_DESCRIPTORS
      exact if_pos (Or.inr (by omega))

theorem fat16_seek_slot (desc : FatFileDescriptor) (offset : Nat) (whence : SeekMode) :
    (fat16_seek desc offset whence).2.root_dir_slot = desc.root_dir_slot := by
  unfold fat16_seek
  split
  · rfl
  · split
    · rfl
    · cases whence <;> rfl

theorem fat16_write_slot (v : Volume) (desc : FatFileDescriptor) (size nmemb : Nat) (buf : Nat → UInt8) :
    (fat16_write v desc size nmemb buf).2.2.root_dir_slot = desc.root_dir_slot := by
  unfold fat16_write
  dsimp only
  split
  · rfl
  · split <;> rfl

theorem call_descriptors (fd : Int) (s : Vfs) (c : DescriptorCall) :
    (s.call fd c).file_descriptors = s.file_descriptors := by
  cases c with
  | fread size nmemb => rfl
  | fstat => rfl
  | fseek offset whence =>
    unfold Vfs.call Vfs.fseek
    dsimp only
    split <;> rfl
  | fwrite ptr size nmemb =>
    unfold Vfs.call Vfs.fwrite
    dsimp only
    split
    · rfl
    · split <;> rfl

theorem noSlot_call (fd : Int) (s : Vfs) (c : DescriptorCall) (h : NoSlot fd s) : NoSlot fd (s.call fd c) := by
  rcases h with h | h
  · left
    unfold Vfs.file_get_descriptor at h ⊢
    rwa [call_descriptors]
  · cases c with
    | fread size nmemb => exact Or.inr h
    | fstat => exact Or.inr h
    | fseek offset whence =>
      unfold Vfs.call Vfs.fseek
      dsimp only
      split
      · exact Or.inr h
      · refine Or.inr (Eq.trans ?_ h)
        simp only [Vfs.priv, Vfs.file_get_descriptor, Vfs.setDescriptor, if_true]
        exact fat16_seek_slot _ _ _
    | fwrite ptr size nmemb =>
      unfold Vfs.call Vfs.fwrite
      dsimp only
      split
      · exact Or.inr h
      · split
        · exact Or.inr h
        · refine Or.inr (Eq.trans ?_ h)
          simp only [Vfs.priv, Vfs.file_get_descriptor, Vfs.setDescriptor, if_true]
          exact fat16_write_slot _ _ _ _ _

theorem alloc_full {p : FatPrivate} {d : Disk} (hfull : fat16_find_free_cluster p d < 0) (prev : Int) :
    fat16_alloc_cluster p d prev = (fat16_find_free_cluster p d, d) := by
  unfold fat16_alloc_cluster
  exact if_pos hfull

theorem walk_reaches (p : FatPrivate) (d : Disk) (n : Nat) (c : Int) (h : Vfs.Reaches p d n c) :
    (fat16_walk p n d c).2 = d := by
  induction n generalizing c with
  | zero => rfl
  | succ n ih =>
    obtain ⟨hnext, hrest⟩ := h
    unfold fat16_walk fat16_next_cluster
    dsimp only
    rw [if_neg hnext, if_neg (by dsimp only; omega)]
    exact ih _ hrest

theorem walk_short (p : FatPrivate) (d : Disk) (hfull : fat16_find_free_cluster p d < 0) (n : Nat) (c : Int)
    (h : ¬ Vfs.Reaches p d n c) : fat16_walk p n d c = (fat16_find_free_cluster p d, d) := by
  induction n generalizing c with
  | zero => exact absurd trivial h
  | succ n ih =>
    unfold fat16_walk fat16_next_cluster
    dsimp only
    by_cases hnext : fat16_get_fat_entry p d c < 2 ∨ fat16_get_fat_entry p d c ≥ fat16EocMin
    · rw [if_pos hnext, alloc_full hfull, if_pos hfull]
    · rw [if_neg hnext, if_neg (by dsimp only; omega)]
      exact ih _ fun hrest => h ⟨hnext, hrest⟩

theorem write_full (v : Volume) (desc : FatFileDescriptor) (size nmemb : Nat) (buf : Nat → UInt8)
    (hout : ¬ Vfs.InFile v desc) (hfull : fat16_find_free_cluster v.priv v.disk < 0) :
    (fat16_write v desc size nmemb buf).2.1 = v := by
  have hint : fat16_write_internal v.priv v.disk (fat16_get_first_cluster desc.item.item) desc.pos buf
      (u32 (size * nmemb)) =
      (fat16_find_free_cluster v.priv v.disk, fat16_get_first_cluster desc.item.item, v.disk) := by
    unfold fat16_write_internal
    by_cases hfirst : fat16_get_first_cluster desc.item.item = 0
    · rw [if_pos hfirst, alloc_full hfull]
      exact if_pos hfull
    · rw [if_neg hfirst, walk_short _ _ hfull _ _ fun hreach => hout ⟨hfirst, hreach⟩]
      exact if_pos hfull
  simp only [fat16_write, hint, hfull, if_true]

theorem write_no_bytes (v : Volume) (desc : FatFileDescriptor) (size nmemb : Nat) (buf : Nat → UInt8)
    (hin : Vfs.InFile v desc) (hzero : u32 (size * nmemb) = 0) (hslot : desc.root_dir_slot = -1) :
    (fat16_write v desc size nmemb buf).2.1 = v := by
  have hdisk : (fat16_write_internal v.priv v.disk (fat16_get_first_cluster desc.item.item) desc.pos buf 0).2.2 =
      v.disk := by
    have hwalk := walk_reaches _ _ _ _ hin.2
    unfold fat16_write_internal
    rw [if_neg hin.1]
    dsimp only
    split
    · exact hwalk
    · exact hwalk
  unfold fat16_write
  dsimp only
  rw [hzero, hdisk]
  split
  · rfl
  · rw [hslot]
    rfl

theorem call_keeps_vol (fd : Int) (s : Vfs) (c : DescriptorCall) (hslot : NoSlot fd s) (h : s.Refuses fd c) :
    (s.call fd c).vol = s.vol := by
  cases c with
  | fread size nmemb => rfl
  | fstat => rfl
  | fseek offset whence =>
    unfold Vfs.call Vfs.fseek
    dsimp only
    split <;> rfl
  | fwrite ptr size nmemb =>
    unfold Vfs.call Vfs.fwrite
    dsimp only
    by_cases hargs : size.toNat = 0 ∨ nmemb.toNat = 0 ∨ fd < 1
    · rw [if_pos hargs]
    · rw [if_neg hargs]
      by_cases hdesc : s.file_get_descriptor fd = 0
      · rw [if_pos hdesc]
      · rw [if_neg hdesc]
        rcases h with h | h | h | ⟨hin, hzero⟩ | ⟨hout, hfull⟩
        · exact absurd (Or.inl (by rw [h]; rfl)) hargs
        · exact absurd (Or.inr (Or.inl (by rw [h]; rfl))) hargs
        · exact absurd h hdesc
        · exact write_no_bytes s.vol (s.priv fd) _ _ ptr hin hzero (hslot.resolve_left hdesc)
        · exact write_full s.vol (s.priv fd) _ _ ptr hout hfull

/-- A file that is open for reading leaves the disk as it was, if every write through it is refused. -/
theorem readers_keep_disk (s : Vfs) (filename : CString) (mode_str : Nat → UInt8) (memory : OpenMemory) (fd : Int)
    (s₁ : Vfs) (hopen : s.fopen filename mode_str memory = (fd, s₁))
    (hmode : file_get_mode_by_string mode_str = .read) (calls : List DescriptorCall)
    (hcalls : Along (Vfs.call fd) (Vfs.Refuses fd) calls s₁) (n : Nat) :
    ((calls.take n).foldl (Vfs.call fd) s₁).vol.disk.sector = s.vol.disk.sector := by
  have hstart : NoSlot fd s₁ ∧ s₁.vol = s.vol := by
    have hslot : NoSlot (s.fopen filename mode_str memory).1 (s.fopen filename mode_str memory).2 :=
      noSlot_fopen hmode
    have hvol := fopen_read_vol s filename mode_str memory hmode
    rw [hopen] at hslot hvol
    exact ⟨hslot, hvol⟩
  have hkept := along_keeps (fun s' => NoSlot fd s' ∧ s'.vol = s.vol) (Vfs.Refuses fd)
    (fun s' c hs' hc => ⟨noSlot_call fd s' c hs'.1, (call_keeps_vol fd s' c hs'.1 hc).trans hs'.2⟩)
    (calls.take n) s₁ hstart (along_take _ calls n s₁ hcalls)
  rw [hkept.2]

theorem sampleVfs_reader : ∃ s₁, sampleVfs.fopen pathA (cstr [0x72]) ⟨fun _ => true, .enough, 16⟩ = (1, s₁) ∧
    ((s₁.call 1 (.fseek 2 .set)).call 1 (.fwrite (fun _ => 0x42) 0 5)).vol.disk.sector = sample.disk.sector := by
  obtain ⟨-, file, hok⟩ := fopen_private_A sampleVfs rfl rfl 16
  have hfirst : First (fun m => sampleVfs.file_descriptors m = 0) 0 PEACHOS_MAX_FILE_DESCRIPTORS 0 :=
    ⟨by decide, by decide, rfl, fun m _ hm => absurd hm (Nat.not_lt_zero m)⟩
  have hopen := fopen_of_ok sampleVfs _ _ _ file 0 hok hfirst
  exact ⟨_, hopen, readers_keep_disk sampleVfs pathA (cstr [0x72]) _ _ _ hopen (by decide)
    [.fseek 2 .set, .fwrite (fun _ => 0x42) 0 5] ⟨trivial, Or.inl rfl, trivial⟩ 2⟩

/-- `fopen("0:/A", "r")` and `fwrite` of one byte: the byte is on the disk. -/
theorem sampleVfs_overwritten :
    (sampleVfs.fopen pathA (cstr [0x72]) ⟨fun _ => true, .enough, 16⟩).1 = 1 ∧
    ((sampleVfs.fopen pathA (cstr [0x72]) ⟨fun _ => true, .enough, 16⟩).2.call 1
      (.fwrite (fun _ => 0x42) 1 1)).vol.disk.sector 4 0 = 0x42 ∧ sampleVfs.vol.disk.sector 4 0 = 0 := by
  decide +kernel

end PeachOS.Files
