import PeachOS.Code.Disk

/-! # The on-disk and in-memory structures of `fat16.c` -/

namespace PeachOS

/-- The fields of `struct fat_header` and `struct fat_header_extended` that the driver reads. -/
structure FatHeader where
  sectors_per_cluster : UInt8
  reserved_sectors : UInt16
  fat_copies : UInt8
  root_dir_entries : UInt16
  number_of_sectors : UInt16
  sectors_per_fat : UInt16
  sectors_big : UInt32
  signature : UInt8
deriving DecidableEq

/-- The packed header at the start of the boot sector. -/
def FatHeader.ofBytes (b : Nat → UInt8) : FatHeader where
  sectors_per_cluster := b 13
  reserved_sectors := UInt16.ofNat (le16 fun i => b (14 + i))
  fat_copies := b 16
  root_dir_entries := UInt16.ofNat (le16 fun i => b (17 + i))
  number_of_sectors := UInt16.ofNat (le16 fun i => b (19 + i))
  sectors_per_fat := UInt16.ofNat (le16 fun i => b (22 + i))
  sectors_big := UInt32.ofNat (le32 fun i => b (32 + i))
  signature := b 38

instance neZero_filename : NeZero 8 := ⟨by decide⟩

instance neZero_ext : NeZero 3 := ⟨by decide⟩

structure FatDirectoryItem where
  filename : Fin 8 → UInt8
  ext : Fin 3 → UInt8
  attr : UInt8
  reserved : UInt8
  creation_time_tenths_of_a_sec : UInt8
  creation_time : UInt16
  creation_date : UInt16
  last_access : UInt16
  high_16_bits_first_cluster : UInt16
  last_mod_time : UInt16
  last_mod_date : UInt16
  low_16_bits_first_cluster : UInt16
  filesize : UInt32

/-- Byte `k` of the packed 32-byte structure. -/
def FatDirectoryItem.byte (it : FatDirectoryItem) (k : Nat) : UInt8 :=
  if h : k < 8 then it.filename ⟨k, h⟩
  else if h : k - 8 < 3 then it.ext ⟨k - 8, h⟩
  else if k = 11 then it.attr
  else if k = 12 then it.reserved
  else if k = 13 then it.creation_time_tenths_of_a_sec
  else if k < 16 then bytes16 it.creation_time.toNat (k - 14)
  else if k < 18 then bytes16 it.creation_date.toNat (k - 16)
  else if k < 20 then bytes16 it.last_access.toNat (k - 18)
  else if k < 22 then bytes16 it.high_16_bits_first_cluster.toNat (k - 20)
  else if k < 24 then bytes16 it.last_mod_time.toNat (k - 22)
  else if k < 26 then bytes16 it.last_mod_date.toNat (k - 24)
  else if k < 28 then bytes16 it.low_16_bits_first_cluster.toNat (k - 26)
  else bytes32 it.filesize.toNat (k - 28)

def FatDirectoryItem.ofBytes (b : Nat → UInt8) : FatDirectoryItem where
  filename i := b i
  ext i := b (8 + i)
  attr := b 11
  reserved := b 12
  creation_time_tenths_of_a_sec := b 13
  creation_time := UInt16.ofNat (le16 fun i => b (14 + i))
  creation_date := UInt16.ofNat (le16 fun i => b (16 + i))
  last_access := UInt16.ofNat (le16 fun i => b (18 + i))
  high_16_bits_first_cluster := UInt16.ofNat (le16 fun i => b (20 + i))
  last_mod_time := UInt16.ofNat (le16 fun i => b (22 + i))
  last_mod_date := UInt16.ofNat (le16 fun i => b (24 + i))
  low_16_bits_first_cluster := UInt16.ofNat (le16 fun i => b (26 + i))
  filesize := UInt32.ofNat (le32 fun i => b (28 + i))

/-- `memset(item, 0, sizeof(*item))`. -/
def FatDirectoryItem.zero : FatDirectoryItem := FatDirectoryItem.ofBytes fun _ => 0

/-- `item` is a pointer: indexes past the loaded entries read whatever memory lies there. -/
structure FatDirectory where
  item : Nat → FatDirectoryItem
  total : Int
  sector_pos : Int
  ending_sector_pos : Int

structure FatPrivate where
  header : FatHeader
  root_directory : FatDirectory

/-- A disk with FAT16 mounted: `struct disk` and its `fs_private`. -/
structure Volume where
  disk : Disk
  priv : FatPrivate

/-- `FAT_ITEM_TYPE`. -/
inductive FatItemType
  | directory | file
deriving DecidableEq

/-- The union holds an item or a directory, `directory` being `none` when it holds an item. -/
structure FatItem where
  type : FatItemType
  item : FatDirectoryItem
  directory : Option FatDirectory

/-- A descriptor of an open file. Its item is a clone of the directory entry. -/
structure FatFileDescriptor where
  item : FatItem
  pos : Nat
  root_dir_slot : Int

/-- `FILE_MODE`. -/
inductive FileMode
  | read | write | append | invalid
deriving DecidableEq

/-- `FILE_SEEK_MODE`. -/
inductive SeekMode
  | set | cur | end_ | other
deriving DecidableEq

/-- `struct file_stat`. -/
structure FileStat where
  flags : Nat
  filesize : Nat

/-- The entry `i` of the root directory is replaced. -/
def FatPrivate.setItem (p : FatPrivate) (i : Nat) (it : FatDirectoryItem) : FatPrivate :=
  { p with root_directory :=
    { p.root_directory with item := fun j => if j = i then it else p.root_directory.item j } }

end PeachOS
