import PeachOS.Code.Fat16
import PeachOS.Code.Path

/-!
# The file functions of the kernel, `file.c`

The kernel has one disk and one file system, FAT16. A `struct file_descriptor` is kept as a record at its
address, and the descriptor table holds addresses.
-/

namespace PeachOS

def PEACHOS_MAX_FILE_DESCRIPTORS : Nat := 512

/-- `filesystem` and `disk` have the same value in every descriptor. -/
structure FileDescriptor where
  index : Int
  priv : FatFileDescriptor

/-- `filesystem` says if `disk.filesystem` is set, which is if the disk was mounted. -/
structure Vfs where
  vol : Volume
  filesystem : Bool
  file_descriptors : Nat → Nat
  descriptor : Nat → FileDescriptor

/-- What the allocations of one `fopen` return: those of the path, those of the file system, and the address
of the descriptor. -/
structure OpenMemory where
  path : Nat → Bool
  fs : FatMemory
  desc : Nat

/-- `strncmp` with `n` characters left, at index `i` of both strings. -/
def strncmp_from (str1 str2 : Nat → UInt8) : Nat → Nat → Int
  | 0, _ => 0
  | n + 1, i =>
    if str1 i ≠ str2 i then ((str1 i).toNat : Int) - (str2 i).toNat
    else if str1 i = 0 then 0
    else strncmp_from str1 str2 n (i + 1)

def strncmp (str1 str2 : Nat → UInt8) (n : Nat) : Int := strncmp_from str1 str2 n 0

def file_get_mode_by_string (str : Nat → UInt8) : FileMode :=
  if strncmp str (cstr [0x72]) 1 = 0 then .read
  else if strncmp str (cstr [0x77]) 1 = 0 then .write
  else if strncmp str (cstr [0x61]) 1 = 0 then .append
  else .invalid

namespace Vfs

/-! ## The descriptor table -/

/-- After `fs_init`. -/
def fs_init (vol : Volume) (filesystem : Bool) (descriptor : Nat → FileDescriptor) : Vfs :=
  { vol := vol, filesystem := filesystem, file_descriptors := fun _ => 0, descriptor := descriptor }

def setSlot (s : Vfs) (i desc : Nat) : Vfs :=
  { s with file_descriptors := fun j => if j = i then desc else s.file_descriptors j }

def setDescriptor (s : Vfs) (a : Nat) (f : FileDescriptor) : Vfs :=
  { s with descriptor := fun x => if x = a then f else s.descriptor x }

def file_free_descriptor (s : Vfs) (desc : Nat) : Vfs := s.setSlot ((s.descriptor desc).index - 1).toNat 0

/-- The search for a slot. -/
def file_new_descriptor_loop (s : Vfs) : Nat → Nat → Int
  | 0, _ => -ENOMEM
  | n + 1, i => if s.file_descriptors i = 0 then i else file_new_descriptor_loop s n (i + 1)

/-- `desc` is what `kzalloc` returns. It is not checked, so a null pointer is written to and put into the
table. -/
def file_new_descriptor (s : Vfs) (desc : Nat) : Int × Vfs :=
  let i := s.file_new_descriptor_loop PEACHOS_MAX_FILE_DESCRIPTORS 0
  if i < 0 then (i, s) else
  let s := s.setDescriptor desc { s.descriptor desc with index := i + 1 }
  (0, s.setSlot i.toNat desc)

/-- 0 is the null pointer. -/
def file_get_descriptor (s : Vfs) (fd : Int) : Nat :=
  if fd ≤ 0 ∨ fd ≥ PEACHOS_MAX_FILE_DESCRIPTORS then 0 else s.file_descriptors (fd - 1).toNat

/-! ## The calls -/

/-- `fopen` up to the `open` of the file system. Drive 0 is the only disk. -/
def fopen_private (s : Vfs) (filename : CString) (mode_str : Nat → UInt8) (memory : OpenMemory) :
    Volume × Except Int FatFileDescriptor :=
  match pathparser_parse filename memory.path with
  | none => (s.vol, .error (-EINVARG))
  | some root_path =>
    match root_path.parts with
    | [] => (s.vol, .error (-EINVARG))
    | part :: next =>
      if root_path.drive_no ≠ 0 then (s.vol, .error (- EIO)) else
      if !s.filesystem then (s.vol, .error (- EIO)) else
      let mode := file_get_mode_by_string mode_str
      if mode = .invalid then (s.vol, .error (-EINVARG)) else
      fat16_open s.vol (cstr part) (next.map cstr) mode memory.fs

/-- The value of `res` at the label `out`. -/
def fopen_res (s : Vfs) (filename : CString) (mode_str : Nat → UInt8) (memory : OpenMemory) : Int × Vfs :=
  let opened := s.fopen_private filename mode_str memory
  let s := { s with vol := opened.1 }
  match opened.2 with
  | .error res => (res, s)
  | .ok descriptor_private_data =>
    let (res, s) := s.file_new_descriptor memory.desc
    if res < 0 then (res, s) else
    let s := s.setDescriptor memory.desc
      { s.descriptor memory.desc with priv := descriptor_private_data }
    ((s.descriptor memory.desc).index, s)

def fopen (s : Vfs) (filename : CString) (mode_str : Nat → UInt8) (memory : OpenMemory) : Int × Vfs :=
  let (res, s) := s.fopen_res filename mode_str memory
  (if res < 0 then 0 else res, s)

/-- Returns the result and the memory at `stat`. -/
def fstat (s : Vfs) (fd : Int) (stat : FileStat) : Int × FileStat :=
  let desc := s.file_get_descriptor fd
  if desc = 0 then (- EIO, stat) else fat16_stat (s.descriptor desc).priv stat

/-- `fat16_close` frees memory and returns 0. -/
def fclose (s : Vfs) (fd : Int) : Int × Vfs :=
  let desc := s.file_get_descriptor fd
  if desc = 0 then (- EIO, s) else (0, s.file_free_descriptor desc)

def fseek (s : Vfs) (fd offset : Int) (whence : SeekMode) : Int × Vfs :=
  let desc := s.file_get_descriptor fd
  if desc = 0 then (- EIO, s) else
  let (res, priv) := fat16_seek (s.descriptor desc).priv (u32 offset) whence
  (res, s.setDescriptor desc { s.descriptor desc with priv := priv })

/-- Returns the result and the memory at `ptr`. -/
def fread (s : Vfs) (ptr : Nat → UInt8) (size nmemb : Nat) (fd : Int) : Int × (Nat → UInt8) :=
  if size = 0 ∨ nmemb = 0 ∨ fd < 1 then (-EINVARG, ptr) else
  let desc := s.file_get_descriptor fd
  if desc = 0 then (-EINVARG, ptr) else fat16_read s.vol (s.descriptor desc).priv size nmemb ptr

def fwrite (s : Vfs) (ptr : Nat → UInt8) (size nmemb : Nat) (fd : Int) : Int × Vfs :=
  if size = 0 ∨ nmemb = 0 ∨ fd < 1 then (-EINVARG, s) else
  let desc := s.file_get_descriptor fd
  if desc = 0 then (-EINVARG, s) else
  let (res, vol, priv) := fat16_write s.vol (s.descriptor desc).priv size nmemb ptr
  (res, { s.setDescriptor desc { s.descriptor desc with priv := priv } with vol := vol })

/-- `kzalloc` is the memory of the path. -/
def fdelete (s : Vfs) (filename : CString) (kzalloc : Nat → Bool) : Int × Vfs :=
  match pathparser_parse filename kzalloc with
  | none => (-EINVARG, s)
  | some root_path =>
    match root_path.parts with
    | [] => (-EINVARG, s)
    | part :: _ =>
      if root_path.drive_no ≠ 0 then (- EIO, s) else
      if !s.filesystem then (- EIO, s) else
      let (res, vol) := fat16_delete s.vol (cstr part)
      (res, { s with vol := vol })

end Vfs

end PeachOS
