import PeachOS.Spec.Descriptors
import PeachOS.Lib.Run
import PeachOS.Lib.Search
import PeachOS.Fat.Mount

/-!
# The descriptor table over whole runs

`file_new_descriptor` gives out the numbers 1 to 512 and `file_get_descriptor` refuses 512. The table keeps
its contract as long as the last slot is not needed.
-/

open PeachOS.Lib

namespace PeachOS.Files

/-! ## The errors of `fopen` -/

theorem fat16_open_error (v : Volume) (part : Nat → UInt8) (next : List (Nat → UInt8)) (mode : FileMode)
    (kzalloc : FatMemory) (e : Int) (h : (fat16_open v part next mode kzalloc).2 = .error e) : e < 0 := by
  have hmem : -ENOMEM < 0 := by decide
  have hio : (- EIO) < 0 := by decide
  have harg : -EINVARG < 0 := by decide
  have hdesc : ∀ v slot, fat16_open_descriptor v slot kzalloc = .error e → e < 0 := by
    intro v slot h
    unfold fat16_open_descriptor at h
    grind
  cases mode with
  | read =>
    simp only [fat16_open, fat16_open_read] at h
    grind
  | write =>
    simp only [fat16_open, fat16_open_write] at h
    grind
  | append => cases h; exact harg
  | invalid => cases h; exact harg

theorem fopen_private_error (s : Vfs) (filename : CString) (mode_str : Nat → UInt8) (memory : OpenMemory)
    (e : Int) (h : (s.fopen_private filename mode_str memory).2 = .error e) : e < 0 := by
  have hio : (- EIO) < 0 := by decide
  have harg : -EINVARG < 0 := by decide
  unfold Vfs.fopen_private at h
  split at h
  · cases h; exact harg
  split at h
  · cases h; exact harg
  split at h
  · cases h; exact hio
  split at h
  · cases h; exact hio
  dsimp only at h
  split at h
  · cases h; exact harg
  · exact fat16_open_error _ _ _ _ _ e h

theorem fopen_of_error (s : Vfs) (filename : CString) (mode_str : Nat → UInt8) (memory : OpenMemory)
    (e : Int) (h : (s.fopen_private filename mode_str memory).2 = .error e) :
    s.fopen filename mode_str memory =
      (0, { s with vol := (s.fopen_private filename mode_str memory).1 }) := by
  unfold Vfs.fopen Vfs.fopen_res
  simp only [h]
  rw [if_pos (fopen_private_error s filename mode_str memory e h)]

/-! ## A new descriptor -/

theorem file_new_descriptor_loop_spec (s : Vfs) (n i : Nat) :
    (∃ j : Nat, s.file_new_descriptor_loop n i = j ∧ First (fun m => s.file_descriptors m = 0) i n j) ∨
      (s.file_new_descriptor_loop n i = -ENOMEM ∧
        ∀ m, i ≤ m → m < i + n → s.file_descriptors m ≠ 0) :=
  search_spec s.file_new_descriptor_loop (-ENOMEM) (fun _ => rfl) (fun _ _ => rfl) n i

theorem file_new_descriptor_of_first (s : Vfs) (desc j : Nat)
    (hj : First (fun m => s.file_descriptors m = 0) 0 PEACHOS_MAX_FILE_DESCRIPTORS j) :
    s.file_new_descriptor desc =
      (0, (s.setDescriptor desc { s.descriptor desc with index := j + 1 }).setSlot j desc) := by
  have hloop : s.file_new_descriptor_loop PEACHOS_MAX_FILE_DESCRIPTORS 0 = j := by
    rcases file_new_descriptor_loop_spec s PEACHOS_MAX_FILE_DESCRIPTORS 0 with
      ⟨i, hi, hfirst⟩ | ⟨-, hfull⟩
    · rw [hi, first_unique hfirst hj]
    · exact absurd hj.holds (hfull j hj.ge hj.lt)
  unfold Vfs.file_new_descriptor
  rw [hloop]
  dsimp only
  rw [if_neg (by omega), Int.toNat_natCast]

/-- `s` with the file in slot `j` at the address `desc`. -/
def withFile (s : Vfs) (vol : Volume) (j desc : Nat) (file : FatFileDescriptor) : Vfs :=
  { s with
    vol := vol
    file_descriptors := fun i => if i = j then desc else s.file_descriptors i
    descriptor := fun x => if x = desc then ⟨j + 1, file⟩ else s.descriptor x }

theorem fopen_of_ok (s : Vfs) (filename : CString) (mode_str : Nat → UInt8) (memory : OpenMemory)
    (file : FatFileDescriptor) (j : Nat) (h : (s.fopen_private filename mode_str memory).2 = .ok file)
    (hj : First (fun m => s.file_descriptors m = 0) 0 PEACHOS_MAX_FILE_DESCRIPTORS j) :
    s.fopen filename mode_str memory =
      ((j : Int) + 1, withFile s (s.fopen_private filename mode_str memory).1 j memory.desc file) := by
  have hnew := file_new_descriptor_of_first
    { s with vol := (s.fopen_private filename mode_str memory).1 } memory.desc j hj
  unfold Vfs.fopen Vfs.fopen_res
  simp only [h, hnew, Int.lt_irrefl, if_false, Vfs.setDescriptor, Vfs.setSlot, if_true]
  rw [if_neg (by omega)]
  refine Prod.ext rfl ?_
  simp only [withFile, Vfs.mk.injEq, true_and]
  funext x
  by_cases hx : x = memory.desc
  · simp only [if_pos hx]
  · simp only [if_neg hx]

/-! ## The invariant -/

/-- The last slot is empty, and each of the others is empty with its number not in use, or has the descriptor
of its number. -/
structure TableInv (s : FdSys) : Prop where
  last : s.fs.file_descriptors 511 = 0
  range : ∀ fd, s.opened fd ≠ none → 0 < fd ∧ fd < 512
  entry : ∀ i < 511,
    (s.fs.file_descriptors i = 0 ∧ s.opened (i + 1) = none) ∨
    (s.fs.file_descriptors i ≠ 0 ∧ (s.fs.descriptor (s.fs.file_descriptors i)).index = i + 1 ∧
      s.opened (i + 1) = some (s.fs.descriptor (s.fs.file_descriptors i)).priv)

variable {s : FdSys}

theorem inv_start (vol : Volume) (filesystem : Bool) (descriptor : Nat → FileDescriptor) :
    TableInv (FdSys.start vol filesystem descriptor) :=
  ⟨rfl, fun _ h => absurd rfl h, fun _ _ => Or.inl ⟨rfl, rfl⟩⟩

theorem get_descriptor_of_lt (fs : Vfs) (i : Nat) (hi : i < 511) :
    fs.file_get_descriptor (i + 1) = fs.file_descriptors i := by
  unfold Vfs.file_get_descriptor PEACHOS_MAX_FILE_DESCRIPTORS
  rw [if_neg (by omega), Int.add_sub_cancel, Int.toNat_natCast]

theorem slot_of_opened (h : TableInv s) (fd : Int) (hfd : s.opened fd ≠ none) :
    ∃ i : Nat, i < 511 ∧ fd = i + 1 ∧ s.fs.file_descriptors i ≠ 0 ∧
      (s.fs.descriptor (s.fs.file_descriptors i)).index = i + 1 ∧
      s.opened fd = some (s.fs.descriptor (s.fs.file_descriptors i)).priv := by
  obtain ⟨h0, h1⟩ := h.range fd hfd
  obtain ⟨i, rfl⟩ : ∃ i : Nat, fd = i + 1 := ⟨(fd - 1).toNat, by omega⟩
  rcases h.entry i (by omega) with ⟨-, hnone⟩ | ⟨hne, hindex, hopen⟩
  · exact absurd hnone hfd
  · exact ⟨i, by omega, rfl, hne, hindex, hopen⟩

theorem fclose_of_taken (fs : Vfs) (i : Nat) (hi : i < 511) (hne : fs.file_descriptors i ≠ 0) :
    fs.fclose (i + 1) = (0, fs.setSlot ((fs.descriptor (fs.file_descriptors i)).index - 1).toNat 0) := by
  unfold Vfs.fclose
  simp only [get_descriptor_of_lt fs i hi]
  rw [if_neg hne]
  rfl

theorem allServed_of_inv (h : TableInv s) : s.AllServed := by
  intro fd file hfile
  obtain ⟨i, hi, rfl, hne, hindex, hopen⟩ := slot_of_opened h fd (by rw [hfile]; simp)
  have hclose := fclose_of_taken s.fs i hi hne
  rw [hindex, Int.add_sub_cancel, Int.toNat_natCast] at hclose
  constructor
  · rwa [get_descriptor_of_lt s.fs i hi]
  · rw [get_descriptor_of_lt s.fs i hi]
    exact Option.some_inj.mp (hopen.symm.trans hfile)
  · rw [hclose]
  · intro j hj
    rw [hclose, Int.add_sub_cancel]
    simp only [Vfs.setSlot, Int.natCast_inj]

theorem inv_fclose (h : TableInv s) (fd : Int) : TableInv (s.step (.fclose fd)) := by
  by_cases hfd : s.opened fd = none
  · -- the number is refused, or its slot is empty
    have hget : s.fs.file_get_descriptor fd = 0 := by
      unfold Vfs.file_get_descriptor PEACHOS_MAX_FILE_DESCRIPTORS
      by_cases hr : fd ≤ 0 ∨ fd ≥ ((512 : Nat) : Int)
      · rw [if_pos hr]
      · obtain ⟨i, rfl⟩ : ∃ i : Nat, fd = i + 1 := ⟨(fd - 1).toNat, by omega⟩
        rw [if_neg hr, Int.add_sub_cancel, Int.toNat_natCast]
        rcases h.entry i (by omega) with ⟨hz, -⟩ | ⟨-, -, hopen⟩
        · exact hz
        · rw [hfd] at hopen
          cases hopen
    have hsame : s.step (.fclose fd) = s := by
      have hopened : (fun x => if x = fd then none else s.opened x) = s.opened := by
        funext x
        by_cases hx : x = fd
        · rw [if_pos hx, hx, hfd]
        · rw [if_neg hx]
      simp only [FdSys.step, Vfs.fclose, hget, if_true, hopened]
    rwa [hsame]
  · obtain ⟨i, hi, rfl, hne, hindex, -⟩ := slot_of_opened h fd hfd
    have hclose := fclose_of_taken s.fs i hi hne
    rw [hindex, Int.add_sub_cancel, Int.toNat_natCast] at hclose
    simp only [FdSys.step, hclose]
    constructor
    · show (if 511 = i then 0 else s.fs.file_descriptors 511) = 0
      rw [h.last, ite_self]
    · intro fd hfd
      apply h.range fd
      intro hnone
      apply hfd
      simp only [hnone, ite_self]
    · intro j hj
      by_cases hji : j = i
      · subst hji
        exact Or.inl ⟨if_pos rfl, if_pos rfl⟩
      · simp only [Vfs.setSlot, if_neg hji]
        rw [if_neg (by omega)]
        exact h.entry j hj

/-! ## Opening -/

variable {filename : CString} {mode_str : Nat → UInt8} {memory : OpenMemory} {file : FatFileDescriptor}

theorem step_of_ok (j : Nat) (h : (s.fs.fopen_private filename mode_str memory).2 = .ok file)
    (hj : First (fun m => s.fs.file_descriptors m = 0) 0 PEACHOS_MAX_FILE_DESCRIPTORS j) :
    s.step (.fopen filename mode_str memory) =
      { fs := withFile s.fs (s.fs.fopen_private filename mode_str memory).1 j memory.desc file
        opened := fun fd => if fd = j + 1 then some file else s.opened fd } := by
  have hopen := fopen_of_ok s.fs filename mode_str memory file j h hj
  simp only [FdSys.step, hopen, h]
  refine congrArg (FdSys.mk _) (funext fun fd => ?_)
  by_cases hfd : fd = j + 1
  · rw [if_pos ⟨by omega, hfd⟩, if_pos hfd]
    rfl
  · rw [if_neg fun hand => hfd hand.2, if_neg hfd]

theorem inv_fopen (h : TableInv s) (j : Nat) (hlt : j < 511)
    (hok : (s.fs.fopen_private filename mode_str memory).2 = .ok file)
    (hj : First (fun m => s.fs.file_descriptors m = 0) 0 PEACHOS_MAX_FILE_DESCRIPTORS j)
    (hne : memory.desc ≠ 0)
    (hfresh : ∀ i < PEACHOS_MAX_FILE_DESCRIPTORS, s.fs.file_descriptors i ≠ memory.desc) :
    TableInv (s.step (.fopen filename mode_str memory)) := by
  rw [step_of_ok j hok hj]
  constructor
  · show (if 511 = j then memory.desc else s.fs.file_descriptors 511) = 0
    rw [if_neg (by omega), h.last]
  · intro fd hfd
    by_cases hfj : fd = j + 1
    · omega
    · dsimp only at hfd
      rw [if_neg hfj] at hfd
      exact h.range fd hfd
  · intro i hi
    by_cases hij : i = j
    · subst hij
      simp only [withFile, if_true]
      exact Or.inr ⟨hne, trivial, trivial⟩
    · have hold := hfresh i (by unfold PEACHOS_MAX_FILE_DESCRIPTORS; omega)
      simp only [withFile, if_neg hij, if_neg hold]
      rw [if_neg (by omega)]
      exact h.entry i hi

theorem answers_of_inv (h : TableInv s) (filename : CString) (mode_str : Nat → UInt8) (memory : OpenMemory)
    (hroom : s.Roomy (.fopen filename mode_str memory)) : s.Answers (.fopen filename mode_str memory) ∧
      TableInv (s.step (.fopen filename mode_str memory)) := by
  obtain ⟨⟨i, hi, hfree⟩, hne, hfresh⟩ := hroom
  rw [PEACHOS_MAX_FILE_DESCRIPTORS] at hi
  cases hok : (s.fs.fopen_private filename mode_str memory).2 with
  | error e =>
    have hopen := fopen_of_error s.fs filename mode_str memory e hok
    constructor
    · simp only [FdSys.Answers, hopen, hok]
      exact ⟨fun h0 => absurd h0 (by omega), fun _ h0 => by cases h0⟩
    · have hstep : s.step (.fopen filename mode_str memory) =
          { s with fs := { s.fs with vol := (s.fs.fopen_private filename mode_str memory).1 } } := by
        simp only [FdSys.step, hopen, Int.lt_irrefl, false_and, if_false]
      rw [hstep]
      exact ⟨h.last, h.range, h.entry⟩
  | ok file =>
    rcases file_new_descriptor_loop_spec s.fs PEACHOS_MAX_FILE_DESCRIPTORS 0 with ⟨j, -, hj⟩ | ⟨-, hfull⟩
    · have hji : j ≤ i := by
        by_contra hlt
        exact hj.before i (Nat.zero_le i) (by omega) hfree
      refine ⟨?_, inv_fopen h j (by omega) hok hj hne hfresh⟩
      simp only [FdSys.Answers, fopen_of_ok s.fs filename mode_str memory file j hok hj]
      refine ⟨fun _ => ⟨?_, ?_⟩, fun _ _ h0 => absurd h0 (by omega)⟩
      · rcases h.entry j (by omega) with ⟨-, hnone⟩ | ⟨htaken, -⟩
        · exact hnone
        · exact absurd hj.holds htaken
      · intro m hm hmj
        obtain ⟨k, rfl⟩ : ∃ k : Nat, m = k + 1 := ⟨(m - 1).toNat, by omega⟩
        rcases h.entry k (by omega) with ⟨hz, -⟩ | ⟨-, -, hopen⟩
        · exact absurd hz (hj.before k (Nat.zero_le k) (by omega))
        · rw [hopen]
          exact Option.some_ne_none _
    · refine absurd hfree (hfull i (Nat.zero_le i) ?_)
      unfold PEACHOS_MAX_FILE_DESCRIPTORS
      omega

/-! ## Where the contract breaks -/

theorem not_served_new (j : Nat) (hok : (s.fs.fopen_private filename mode_str memory).2 = .ok file)
    (hj : First (fun m => s.fs.file_descriptors m = 0) 0 PEACHOS_MAX_FILE_DESCRIPTORS j)
    (hbad : j = 511 ∨ memory.desc = 0) : ¬ (s.step (.fopen filename mode_str memory)).AllServed := by
  intro hserved
  rw [step_of_ok j hok hj] at hserved
  apply (hserved (j + 1) file (if_pos rfl)).accepted
  have hlt : j < 0 + 512 := hj.lt
  by_cases hlast : j = 511
  · subst hlast
    rfl
  · rw [get_descriptor_of_lt _ j (by omega)]
    simp only [withFile, if_true]
    exact hbad.resolve_left hlast

/-- A descriptor that gets the memory of another one takes its number away. -/
theorem not_served_shared (h : TableInv s) (j : Nat)
    (hok : (s.fs.fopen_private filename mode_str memory).2 = .ok file)
    (hj : First (fun m => s.fs.file_descriptors m = 0) 0 PEACHOS_MAX_FILE_DESCRIPTORS j)
    (hne : memory.desc ≠ 0) (i : Nat) (hi : i < 512) (hshared : s.fs.file_descriptors i = memory.desc) :
    ¬ (s.step (.fopen filename mode_str memory)).AllServed := by
  intro hserved
  have hij : i ≠ j := by
    rintro rfl
    exact hne (hshared.symm.trans hj.holds)
  have hlast : i ≠ 511 := by
    rintro rfl
    exact hne (hshared.symm.trans h.last)
  have hopened : s.opened (i + 1) ≠ none := by
    rcases h.entry i (by omega) with ⟨hz, -⟩ | ⟨-, -, hopen⟩
    · exact absurd (hshared.symm.trans hz) hne
    · rw [hopen]
      exact Option.some_ne_none _
  obtain ⟨old, hold⟩ := Option.ne_none_iff_exists'.mp hopened
  rw [step_of_ok j hok hj] at hserved
  have hslot : (withFile s.fs (s.fs.fopen_private filename mode_str memory).1 j memory.desc
      file).file_descriptors i = memory.desc := by
    simp only [withFile, if_neg hij, hshared]
  have hrel := (hserved (i + 1) old ((if_neg (by omega)).trans hold)).releases i hi
  rw [fclose_of_taken _ i (by omega) (by rw [hslot]; exact hne), hslot, if_pos (by omega)] at hrel
  simp only [withFile, Vfs.setSlot, if_true, Int.add_sub_cancel, Int.toNat_natCast, if_neg hij,
    hshared] at hrel
  exact hne hrel

theorem roomy_of_contract (h : TableInv s) (c : FdCall) (hopens : s.Opens c) (hc : s.Contract c) :
    s.Roomy c := by
  cases c with
  | fclose fd => trivial
  | fopen filename mode_str memory =>
    obtain ⟨file, hok⟩ := hopens
    rcases file_new_descriptor_loop_spec s.fs PEACHOS_MAX_FILE_DESCRIPTORS 0 with ⟨j, -, hj⟩ | ⟨-, hfull⟩
    · have hlt : j < 0 + 512 := hj.lt
      have hj511 : j ≠ 511 := fun hbad => not_served_new j hok hj (Or.inl hbad) hc.2
      have hne : memory.desc ≠ 0 := fun hbad => not_served_new j hok hj (Or.inr hbad) hc.2
      refine ⟨⟨j, ?_, hj.holds⟩, hne, ?_⟩
      · unfold PEACHOS_MAX_FILE_DESCRIPTORS
        omega
      · intro i hi hshared
        exact not_served_shared h j hok hj hne i hi hshared hc.2
    · exact absurd h.last (hfull 511 (by decide) (by decide))

/-! ## Runs -/

theorem contract_step (h : TableInv s) (c : FdCall) (hroom : s.Roomy c) :
    TableInv (s.step c) ∧ s.Contract c := by
  cases c with
  | fclose fd =>
    have hnext := inv_fclose h fd
    exact ⟨hnext, trivial, allServed_of_inv hnext⟩
  | fopen filename mode_str memory =>
    obtain ⟨hans, hnext⟩ := answers_of_inv h filename mode_str memory hroom
    exact ⟨hnext, hans, allServed_of_inv hnext⟩

/-- The contract holds at every call of a run in which every `fopen` has room, and a run of opens that
succeed needs the room. -/
theorem descriptor_contract (vol : Volume) (filesystem : Bool) (descriptor : Nat → FileDescriptor)
    (calls : List FdCall) :
    (Along FdSys.step FdSys.Roomy calls (.start vol filesystem descriptor) →
      Along FdSys.step FdSys.Contract calls (.start vol filesystem descriptor)) ∧
    (Along FdSys.step FdSys.Opens calls (.start vol filesystem descriptor) →
      Along FdSys.step FdSys.Contract calls (.start vol filesystem descriptor) →
      Along FdSys.step FdSys.Roomy calls (.start vol filesystem descriptor)) := by
  have hstart := inv_start vol filesystem descriptor
  constructor
  · exact along_of_inv TableInv _ _ (fun s c h => contract_step h c) calls _ hstart
  · intro hopens
    refine (along_iff TableInv FdSys.Opens FdSys.Roomy FdSys.Contract ?_ ?_ calls _ hopens hstart).mp
    · intro s c h _ hroom
      exact contract_step h c hroom
    · intro s c h hok hroom hc
      exact hroom (roomy_of_contract h c hok hc)

/-! ## Opening one file again and again -/

/-- `0:/A`. -/
def pathA : CString := ⟨[0x30, 0x3A, 0x2F, 0x41], by decide⟩

/-- `fopen("0:/A", "r")`, with the descriptor in block `n` of the memory. -/
def openA (n : Nat) : FdCall := .fopen pathA (cstr [0x72]) ⟨fun _ => true, .enough, 16 * (n + 1)⟩

def noFile : FatFileDescriptor := ⟨⟨.file, .zero, none⟩, 0, 0⟩

/-- The small volume with no descriptor in use. -/
def sampleFds : FdSys := .start sample true fun _ => ⟨0, noFile⟩

theorem fopen_private_A (fs : Vfs) (hv : fs.vol = sample) (hf : fs.filesystem = true) (desc : Nat) :
    (fs.fopen_private pathA (cstr [0x72]) ⟨fun _ => true, .enough, desc⟩).1 = sample ∧
    ∃ file, (fs.fopen_private pathA (cstr [0x72]) ⟨fun _ => true, .enough, desc⟩).2 = .ok file := by
  obtain ⟨vol, filesystem, slots, descriptor⟩ := fs
  obtain rfl : vol = sample := hv
  obtain rfl : filesystem = true := hf
  have hok : (fat16_open_read sample (cstr [0x41]) [] .enough).isOk = true := by decide +kernel
  have hopen : Vfs.fopen_private ⟨sample, true, slots, descriptor⟩ pathA (cstr [0x72])
      ⟨fun _ => true, .enough, desc⟩ =
      (sample, fat16_open_read sample (cstr [0x41]) [] .enough) := rfl
  rw [hopen]
  refine ⟨rfl, ?_⟩
  generalize fat16_open_read sample (cstr [0x41]) [] .enough = r at hok
  cases r with
  | error e => cases hok
  | ok file => exact ⟨file, rfl⟩

theorem filled_first (s : FdSys) (n : Nat) (hn : n < 512)
    (hslots : ∀ i, s.fs.file_descriptors i = if i < n then 16 * (i + 1) else 0) :
    First (fun m => s.fs.file_descriptors m = 0) 0 PEACHOS_MAX_FILE_DESCRIPTORS n := by
  refine ⟨Nat.zero_le n, ?_, ?_, ?_⟩
  · unfold PEACHOS_MAX_FILE_DESCRIPTORS
    omega
  · rw [hslots, if_neg (by omega)]
  · intro m _ hm
    rw [hslots, if_pos hm]
    omega

theorem opens_fill (n : Nat) (hn : n ≤ 512) : ∃ s, ((List.range n).map openA).foldl FdSys.step sampleFds = s ∧
    s.fs.vol = sample ∧ s.fs.filesystem = true ∧
    ∀ i, s.fs.file_descriptors i = if i < n then 16 * (i + 1) else 0 := by
  induction n with
  | zero => exact ⟨_, rfl, rfl, rfl, fun i => rfl⟩
  | succ n ih =>
    obtain ⟨s, heq, hvol, hfs, hslots⟩ := ih (by omega)
    obtain ⟨hsame, file, hok⟩ := fopen_private_A s.fs hvol hfs (16 * (n + 1))
    have hfirst := filled_first s n (by omega) hslots
    refine ⟨s.step (openA n), ?_, ?_⟩
    · rw [List.range_succ, List.map_append, List.foldl_append, heq]
      rfl
    · have hstep := step_of_ok n hok hfirst
      rw [hsame] at hstep
      rw [openA, hstep]
      refine ⟨rfl, hfs, ?_⟩
      intro i
      simp only [withFile, hslots]
      grind

theorem sampleFds_contract : Along FdSys.step FdSys.Contract [openA 0, .fclose 1] sampleFds :=
  (descriptor_contract sample true (fun _ => ⟨0, noFile⟩) [openA 0, .fclose 1]).1
    ⟨⟨⟨0, by decide, rfl⟩, by decide, fun _ _ => (by decide : 0 ≠ 16)⟩, trivial, trivial⟩

/-- After 511 opens. -/
def manyFds : FdSys := ((List.range 511).map openA).foldl FdSys.step sampleFds

/-- The next open returns 512, which `file_get_descriptor` refuses. -/
theorem manyFds_refused :
    ∃ fs, manyFds.fs.fopen pathA (cstr [0x72]) ⟨fun _ => true, .enough, 8192⟩ = (512, fs) ∧
      fs.file_get_descriptor 512 = 0 ∧ fs.fclose 512 = (- EIO, fs) ∧ ¬ manyFds.Contract (openA 511) := by
  obtain ⟨s, heq, hvol, hfs, hslots⟩ := opens_fill 511 (by decide)
  rw [manyFds, heq]
  obtain ⟨-, file, hok⟩ := fopen_private_A s.fs hvol hfs 8192
  have hfirst := filled_first s 511 (by omega) hslots
  refine ⟨_, fopen_of_ok s.fs _ _ _ file 511 hok hfirst, rfl, rfl, ?_⟩
  intro hc
  exact not_served_new 511 hok hfirst (Or.inl rfl) hc.2

end PeachOS.Files
