import PeachOS.Spec.FileReads
import PeachOS.Lib.Run

/-!
# What an open leaves behind

An open that fails should change nothing, and a file that is open for reading should not change the volume.
-/

namespace PeachOS

namespace Vfs

/-- The volume and the descriptor table are the same: all sectors, the root directory in memory, all slots. -/
structure Same (s s' : Vfs) : Prop where
  disk : s'.vol.disk.sector = s.vol.disk.sector
  root : s'.vol.priv.root_directory = s.vol.priv.root_directory
  slots : s'.file_descriptors = s.file_descriptors

/-- An `fopen` that returns 0 changes nothing. -/
def FailsClean (s : Vfs) (filename : CString) (mode_str : Nat → UInt8) (memory : OpenMemory) : Prop :=
  (s.fopen filename mode_str memory).1 = 0 → s.Same (s.fopen filename mode_str memory).2

/-- The name with which `fopen` calls the file system to open a file for writing. -/
def writeTarget (s : Vfs) (filename : CString) (mode_str : Nat → UInt8) (memory : OpenMemory) :
    Option (Nat → UInt8) :=
  match pathparser_parse filename memory.path with
  | none => none
  | some root_path =>
    match root_path.parts with
    | [] => none
    | part :: _ =>
      if root_path.drive_no = 0 ∧ s.filesystem = true ∧ file_get_mode_by_string mode_str = .write then
        some (cstr part)
      else none

/-- Slot `slot` has the entry `it`, in memory and on the disk: the entry can be flushed and nothing changes. -/
def Stored (v : Volume) (slot : Nat) (it : FatDirectoryItem) : Prop :=
  v.priv.root_directory.item slot = it ∧ (fat16_write_root_dir_entry v.priv v.disk slot).2.sector = v.disk.sector

/-- An open for writing changes nothing: there is no slot for the file, or the entry is already what it is made
to be. -/
def Idle (v : Volume) (part : Nat → UInt8) : Prop :=
  let slot := fat16_find_root_dir_slot_by_name v.priv part
  let free := fat16_find_free_root_dir_slot v.priv
  if slot ≥ 0 then Stored v slot.toNat (emptied (v.priv.root_directory.item slot.toNat))
  else free < 0 ∨ (Stored v free.toNat (fat16_new_entry part) ∧ free < v.priv.root_directory.total)

/-- There is memory for the descriptor of the file system, and a slot in the table. -/
def Room (s : Vfs) (memory : OpenMemory) : Prop :=
  memory.fs 0 ∧ memory.fs 1 ∧ memory.fs 2 ∧ ∃ i < PEACHOS_MAX_FILE_DESCRIPTORS, s.file_descriptors i = 0

end Vfs

/-! ## Readers -/

/-- The calls that a program can make with the number of an open file, `fclose` apart. -/
inductive DescriptorCall
  | fread (size nmemb : UInt32)
  | fseek (offset : Int) (whence : SeekMode)
  | fstat
  | fwrite (ptr : Nat → UInt8) (size nmemb : UInt32)

namespace Vfs

/-- `fread` and `fstat` only write to the memory of the caller. -/
def call (fd : Int) (s : Vfs) : DescriptorCall → Vfs
  | .fread _ _ => s
  | .fseek offset whence => (s.fseek fd offset whence).2
  | .fstat => s
  | .fwrite ptr size nmemb => (s.fwrite ptr size.toNat nmemb.toNat fd).2

/-- The chain of `cluster` has `n` more clusters, as a write follows it. -/
def Reaches (p : FatPrivate) (d : Disk) : Nat → Int → Prop
  | 0, _ => True
  | n + 1, cluster =>
    let next := fat16_get_fat_entry p d cluster
    ¬ (next < 2 ∨ next ≥ fat16EocMin) ∧ Reaches p d n next

/-- The position of the descriptor is in a cluster of its file. -/
def InFile (v : Volume) (desc : FatFileDescriptor) : Prop :=
  fat16_get_first_cluster desc.item.item ≠ 0 ∧
    Reaches v.priv v.disk (desc.pos / fat16_cluster_size v.priv) (i32 (fat16_get_first_cluster desc.item.item))

/-- A write that has nothing to do: it is refused by `fwrite`, or its 32-bit number of bytes is 0 and it needs no
cluster, or it needs one and none is free. -/
def Refuses (fd : Int) (s : Vfs) : DescriptorCall → Prop
  | .fwrite _ size nmemb => size = 0 ∨ nmemb = 0 ∨ s.file_get_descriptor fd = 0 ∨
    (InFile s.vol (s.priv fd) ∧ u32 (size.toNat * nmemb.toNat) = 0) ∨
    (¬ InFile s.vol (s.priv fd) ∧ fat16_find_free_cluster s.vol.priv s.vol.disk < 0)
  | _ => True

end Vfs

end PeachOS
