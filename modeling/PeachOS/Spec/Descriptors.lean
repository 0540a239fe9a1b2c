import PeachOS.Code.File

/-!
# What file descriptors are for

A number that `fopen` returns stands for the file that this call opened, until `fclose` of the number.
-/

namespace PeachOS

/-- The descriptors in use, besides the state of the code. -/
structure FdSys where
  fs : Vfs
  opened : Int → Option FatFileDescriptor

inductive FdCall
  | fopen (filename : CString) (mode_str : Nat → UInt8) (memory : OpenMemory)
  | fclose (fd : Int)

namespace FdSys

def step (s : FdSys) : FdCall → FdSys
  | .fopen filename mode_str memory =>
    let res := s.fs.fopen filename mode_str memory
    { fs := res.2
      opened := fun fd =>
        if 0 < res.1 ∧ fd = res.1 then (s.fs.fopen_private filename mode_str memory).2.toOption
        else s.opened fd }
  | .fclose fd =>
    { fs := (s.fs.fclose fd).2, opened := fun x => if x = fd then none else s.opened x }

def start (vol : Volume) (filesystem : Bool) (descriptor : Nat → FileDescriptor) : FdSys :=
  { fs := .fs_init vol filesystem descriptor, opened := fun _ => none }

/-- The number leads to the file, and `fclose` of it releases its slot and no other. -/
structure Serves (s : FdSys) (fd : Int) (file : FatFileDescriptor) : Prop where
  accepted : s.fs.file_get_descriptor fd ≠ 0
  file : (s.fs.descriptor (s.fs.file_get_descriptor fd)).priv = file
  closes : (s.fs.fclose fd).1 = 0
  releases : ∀ i < PEACHOS_MAX_FILE_DESCRIPTORS,
    (s.fs.fclose fd).2.file_descriptors i = if (i : Int) = fd - 1 then 0 else s.fs.file_descriptors i

/-- Every number in use serves its file. -/
def AllServed (s : FdSys) : Prop := ∀ fd file, s.opened fd = some file → s.Serves fd file

/-- `fopen` returns the least number that is not in use. It returns no number for a file that was opened only
if all the numbers are in use. -/
def Answers (s : FdSys) : FdCall → Prop
  | .fopen filename mode_str memory =>
    (0 < (s.fs.fopen filename mode_str memory).1 →
      s.opened (s.fs.fopen filename mode_str memory).1 = none ∧
      ∀ m, 0 < m → m < (s.fs.fopen filename mode_str memory).1 → s.opened m ≠ none) ∧
    (∀ file, (s.fs.fopen_private filename mode_str memory).2 = .ok file →
      (s.fs.fopen filename mode_str memory).1 ≤ 0 →
      ∀ m : Int, 0 < m → m ≤ PEACHOS_MAX_FILE_DESCRIPTORS → s.opened m ≠ none)
  | .fclose _ => True

/-- The contract for one call. -/
def Contract (s : FdSys) (c : FdCall) : Prop := s.Answers c ∧ (s.step c).AllServed

/-- Before an `fopen`, one of the slots but the last is empty, and `kzalloc` returns memory that no
descriptor of the table has. -/
def Roomy (s : FdSys) : FdCall → Prop
  | .fopen _ _ memory =>
    (∃ i < PEACHOS_MAX_FILE_DESCRIPTORS - 1, s.fs.file_descriptors i = 0) ∧ memory.desc ≠ 0 ∧
      ∀ i < PEACHOS_MAX_FILE_DESCRIPTORS, s.fs.file_descriptors i ≠ memory.desc
  | .fclose _ => True

/-- The file of an `fopen` exists, or could be created. -/
def Opens (s : FdSys) : FdCall → Prop
  | .fopen filename mode_str memory =>
    ∃ file, (s.fs.fopen_private filename mode_str memory).2 = .ok file
  | .fclose _ => True

end FdSys

end PeachOS
