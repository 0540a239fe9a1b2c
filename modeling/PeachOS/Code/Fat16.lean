import PeachOS.Code.FatTypes

/-!
# The FAT16 driver, `fat16.c`

Functions in the order of the source. A function that changes the disk returns the new one, and a
loop is a recursion of its own. `kzalloc` appears as a `Bool`: whether it found memory.
-/

namespace PeachOS

def fat16EocMin : Int := 0xFFF8
def fat16Eoc : Nat := 0xFFFF

/-! ## Mounting -/

/-- The counting loop. `none` means that the loop has not ended after `fuel` entries. -/
def fat16_get_total_items_loop (d : Disk) : Nat → DiskStream → Int → Option Int
  | 0, _, _ => none
  | fuel + 1, stream, i =>
    let (res, item, stream) := diskstreamer_read d stream (fun _ => 0) 32
    if res ≠ 0 then some (- EIO)
    else if item 0 = 0x00 then some i
    else if item 0 = 0xE5 then fat16_get_total_items_loop d fuel stream i
    else fat16_get_total_items_loop d fuel stream (i + 1)

def fat16_get_total_items_for_directory (fuel : Nat) (d : Disk) (directory_start_sector : Int) :
    Option Int :=
  let (res, stream) := diskstreamer_seek diskstreamer_new (i32 (directory_start_sector * 512))
  if res ≠ 0 then some (- EIO) else fat16_get_total_items_loop d fuel stream 0

/-- `mem` is what the block at `dir` holds before the read, past its end included. -/
def fat16_get_root_directory (fuel : Nat) (d : Disk) (header : FatHeader) (alloc : Bool)
    (mem : Nat → UInt8) : Option (Except Int FatDirectory) :=
  let root_dir_sector_pos : Int :=
    header.fat_copies.toNat * header.sectors_per_fat.toNat + header.reserved_sectors.toNat
  let root_dir_size : Int := header.root_dir_entries.toNat * 32
  match fat16_get_total_items_for_directory fuel d root_dir_sector_pos with
  | none => none
  | some total_items =>
    if !alloc then some (.error (- ENOMEM)) else
    let (res, stream) := diskstreamer_seek diskstreamer_new (i32 (root_dir_sector_pos * 512))
    if res ≠ 0 then some (.error (- EIO)) else
    let (res, dir, _) := diskstreamer_read d stream mem root_dir_size
    if res ≠ 0 then some (.error (- EIO)) else
    some (.ok
      { item := fun i => FatDirectoryItem.ofBytes fun k => dir (32 * i + k)
        total := total_items
        sector_pos := root_dir_sector_pos
        ending_sector_pos := root_dir_sector_pos + root_dir_size.tdiv 512 })

def fat16_resolve (fuel : Nat) (d : Disk) (alloc : Bool) (mem : Nat → UInt8) :
    Option (Except Int Volume) :=
  let (res, bytes, _) := diskstreamer_read d diskstreamer_new (fun _ => 0) 62
  if res ≠ 0 then some (.error (- EIO)) else
  let header := FatHeader.ofBytes bytes
  if header.signature ≠ 0x29 then some (.error (-EFSNOTUS)) else
  match fat16_get_root_directory fuel d header alloc mem with
  | none => none
  | some (.error _) => some (.error (- EIO))
  | some (.ok directory) => some (.ok ⟨d, header, directory⟩)

/-! ## Names -/

/-- Copies a field up to its padding. Returns the memory at `out` and the new output index. -/
def fat16_to_proper_string (out : Nat → UInt8) (pos : Nat) : List UInt8 → (Nat → UInt8) × Nat
  | [] => (out, pos)
  | b :: rest =>
    if b ≠ 0x00 ∧ b ≠ 0x20 then
      fat16_to_proper_string (fun i => if i = pos then b else out i) (pos + 1) rest
    else if b = 0x20 then (fun i => if i = pos then 0x00 else out i, pos)
    else (out, pos)

/-- The memory at `out` after the call. -/
def fat16_get_full_relative_filename (item : FatDirectoryItem) (out : Nat → UInt8) (max_len : Nat) :
    Nat → UInt8 :=
  let out := fun i => if i < max_len then 0x00 else out i
  let fname_buf := List.ofFn item.filename ++ [0x00]
  let ext_buf := List.ofFn item.ext ++ [0x00]
  let (out, pos) := fat16_to_proper_string out 0 fname_buf
  if item.ext 0 ≠ 0x00 ∧ item.ext 0 ≠ 0x20 then
    (fat16_to_proper_string (fun i => if i = pos then 0x2E else out i) (pos + 1) ext_buf).1
  else out

/-- The name of an entry in a local buffer of `PEACHOS_MAX_PATH` bytes. -/
def fat16_tmp_filename (item : FatDirectoryItem) : Nat → UInt8 :=
  fat16_get_full_relative_filename item (fun _ => 0) 108

def fat16_get_first_cluster (item : FatDirectoryItem) : Nat :=
  item.high_16_bits_first_cluster.toNat * 65536 + item.low_16_bits_first_cluster.toNat

/-! ## The FAT and the clusters -/

def fat16_cluster_to_sector (p : FatPrivate) (cluster : Int) : Int :=
  i32 (p.root_directory.ending_sector_pos + (cluster - 2) * p.header.sectors_per_cluster.toNat)

def fat16_get_first_fat_sector (p : FatPrivate) : Nat := p.header.reserved_sectors.toNat

def fat16_get_fat_entry (p : FatPrivate) (d : Disk) (cluster : Int) : Int :=
  let fat_table_position : Int := fat16_get_first_fat_sector p * 512
  let (res, stream) := diskstreamer_seek diskstreamer_new (i32 (fat_table_position + cluster * 2))
  if res < 0 then res else
  let (res, result, _) := diskstreamer_read d stream (fun _ => 0) 2
  if res < 0 then res else
  le16 result

def fat16_get_cluster_for_offset_loop (p : FatPrivate) (d : Disk) : Nat → Int → Int
  | 0, cluster_to_use => cluster_to_use
  | n + 1, cluster_to_use =>
    let entry := fat16_get_fat_entry p d cluster_to_use
    if entry = 0xFF8 ∨ entry = 0xFFF then - EIO
    else if entry = 0xFF7 ∨ entry = 0xFF0 ∨ entry = 0xFF6 ∨ entry = 0x00 then - EIO
    else fat16_get_cluster_for_offset_loop p d n entry

def fat16_get_cluster_for_offset (p : FatPrivate) (d : Disk) (starting_cluster offset : Int) : Int :=
  let size_of_cluster_bytes : Int := p.header.sectors_per_cluster.toNat * 512
  let clusters_ahead := offset.tdiv size_of_cluster_bytes
  fat16_get_cluster_for_offset_loop p d clusters_ahead.toNat starting_cluster

/-- Every call but the last reads a whole cluster size. -/
def fat16_read_internal_rec (p : FatPrivate) (d : Disk) (cluster : Int) :
    Nat → Int → Int → (Nat → UInt8) → Int × (Nat → UInt8)
  | 0, _, _, out => (0, out)
  | fuel + 1, offset, total, out =>
    let size_of_cluster_bytes : Int := p.header.sectors_per_cluster.toNat * 512
    let cluster_to_use := fat16_get_cluster_for_offset p d cluster offset
    if cluster_to_use < 0 then (cluster_to_use, out) else
    let offset_from_cluster := offset.tmod size_of_cluster_bytes
    let starting_sector := fat16_cluster_to_sector p cluster_to_use
    let starting_pos := i32 (starting_sector * 512 + offset_from_cluster)
    let total_to_read := if total > size_of_cluster_bytes then size_of_cluster_bytes else total
    let (res, stream) := diskstreamer_seek diskstreamer_new starting_pos
    if res ≠ 0 then (res, out) else
    let (res, out', _) := diskstreamer_read d stream out total_to_read
    if res ≠ 0 then (res, out') else
    if total - total_to_read > 0 then
      let k := total_to_read.toNat
      let (res, rest) := fat16_read_internal_rec p d cluster fuel (i32 (offset + total_to_read))
        (total - total_to_read) (fun i => out' (i + k))
      (res, fun i => if i < k then out' i else rest (i - k))
    else (res, out')

def fat16_read_internal (p : FatPrivate) (d : Disk) (starting_cluster offset total : Int)
    (out : Nat → UInt8) : Int × (Nat → UInt8) :=
  fat16_read_internal_rec p d starting_cluster (total.toNat + 1) offset total out

/-! ## Lookup for reading -/

/-- The allocations of one open. `kzalloc i` says if allocation `i` finds memory: 0 is the descriptor, 1 the item and 2
the copy of the entry. A null pointer to an entry leads to `null`, the bytes at address 0. -/
structure FatMemory where
  kzalloc : Nat → Bool
  null : FatDirectoryItem

instance : CoeFun FatMemory fun _ => Nat → Bool := ⟨FatMemory.kzalloc⟩

/-- There is memory for all of them. -/
def FatMemory.enough : FatMemory := ⟨fun _ => true, .zero⟩

/-- What the pointer to the copy leads to. -/
def fat16_clone_directory_item (item : FatDirectoryItem) (kzalloc : FatMemory) : FatDirectoryItem :=
  if kzalloc 2 then item else kzalloc.null

/-- The directory that is loaded for a subdirectory is lost: `item` overwrites it in the union. The copy is not
checked. -/
def fat16_new_fat_item_for_directory_item (item : FatDirectoryItem) (kzalloc : FatMemory) : Option FatItem :=
  if !kzalloc 1 then none
  else some { type := .file, item := fat16_clone_directory_item item kzalloc, directory := none }

/-- The last index below `i + n` whose name matches, or `found`. -/
def fat16_find_item_loop (directory : FatDirectory) (name : Nat → UInt8) :
    Nat → Nat → Option Nat → Option Nat
  | 0, _, found => found
  | n + 1, i, found =>
    if istrncmp (fat16_tmp_filename (directory.item i)) name 108 = 0 then
      fat16_find_item_loop directory name n (i + 1) (some i)
    else fat16_find_item_loop directory name n (i + 1) found

/-- The last match counts, also if there is no memory for its item. -/
def fat16_find_item_in_directory (directory : FatDirectory) (name : Nat → UInt8) (kzalloc : FatMemory) :
    Option FatItem :=
  (fat16_find_item_loop directory name directory.total.toNat 0 none).bind fun i =>
    fat16_new_fat_item_for_directory_item (directory.item i) kzalloc

def fat16_get_directory_entry_loop (kzalloc : FatMemory) (current_item : FatItem) :
    List (Nat → UInt8) → Option FatItem
  | [] => some current_item
  | part :: rest =>
    if current_item.type ≠ .directory then none else
    match current_item.directory with
    | none => none
    | some directory =>
      match fat16_find_item_in_directory directory part kzalloc with
      | none => none
      | some tmp_item => fat16_get_directory_entry_loop kzalloc tmp_item rest

def fat16_get_directory_entry (p : FatPrivate) (part : Nat → UInt8) (next : List (Nat → UInt8))
    (kzalloc : FatMemory) : Option FatItem :=
  match fat16_find_item_in_directory p.root_directory part kzalloc with
  | none => none
  | some current_item => fat16_get_directory_entry_loop kzalloc current_item next

/-! ## Write helpers -/

/-- Writes `value` to both FAT copies. -/
def fat16_set_fat_entry (p : FatPrivate) (d : Disk) (cluster : Int) (value : Nat) : Int × Disk :=
  let fat_base : Int := fat16_get_first_fat_sector p * 512
  let entry_off := u32 (fat_base + cluster * 2)
  let fat2_off := u32 (entry_off + p.header.sectors_per_fat.toNat * 512)
  let res := diskstreamer_seek diskstreamer_new (i32 entry_off)
  if res.1 < 0 then (res.1, d) else
  let res := diskstreamer_write d res.2 (bytes16 value) 2
  if res.1 < 0 then (res.1, res.2.1) else
  let d := res.2.1
  let res := diskstreamer_seek res.2.2 (i32 fat2_off)
  if res.1 < 0 then (res.1, d) else
  let res := diskstreamer_write d res.2 (bytes16 value) 2
  (res.1, res.2.1)

def fat16_count_of_clusters (p : FatPrivate) : Int :=
  let total_sectors : Int :=
    if p.header.number_of_sectors ≠ 0 then p.header.number_of_sectors.toNat
    else i32 p.header.sectors_big.toNat
  let first_data_sector := p.root_directory.ending_sector_pos
  let data_sectors := i32 (total_sectors - first_data_sector)
  data_sectors.tdiv p.header.sectors_per_cluster.toNat

/-- The clusters from 2 up to `count_of_clusters + 1`, which is an `int`. -/
def fat16_clusters (p : FatPrivate) : Nat := (i32 (fat16_count_of_clusters p + 1) - 1).toNat

def fat16_find_free_cluster_loop (p : FatPrivate) (d : Disk) : Nat → Nat → Int
  | 0, _ => -ENOMEM
  | n + 1, i =>
    if fat16_get_fat_entry p d i = 0 then i else fat16_find_free_cluster_loop p d n (i + 1)

def fat16_find_free_cluster (p : FatPrivate) (d : Disk) : Int :=
  fat16_find_free_cluster_loop p d (fat16_clusters p) 2

def fat16_alloc_cluster (p : FatPrivate) (d : Disk) (prev_cluster : Int) : Int × Disk :=
  let cluster := fat16_find_free_cluster p d
  if cluster < 0 then (cluster, d) else
  let res := fat16_set_fat_entry p d cluster fat16Eoc
  if res.1 < 0 then res else
  if prev_cluster ≥ 2 then
    let res := fat16_set_fat_entry p res.2 prev_cluster (u16 cluster)
    if res.1 < 0 then res else (cluster, res.2)
  else (cluster, res.2)

/-- Each turn zeroes one of the 65528 entries it can reach, and stops at a zero entry. -/
def fat16_free_cluster_chain_loop (p : FatPrivate) : Nat → Disk → Int → Disk
  | 0, d, _ => d
  | fuel + 1, d, cluster =>
    if cluster ≥ 2 ∧ cluster < fat16EocMin then
      let next := fat16_get_fat_entry p d cluster
      let d := (fat16_set_fat_entry p d cluster 0x0000).2
      if next < 2 ∨ next ≥ fat16EocMin then d
      else fat16_free_cluster_chain_loop p fuel d next
    else d

def fat16_free_cluster_chain (p : FatPrivate) (d : Disk) (first_cluster : Nat) : Disk :=
  fat16_free_cluster_chain_loop p 65536 d (i32 first_cluster)

def fat16_write_cluster_data (p : FatPrivate) (d : Disk) (cluster : Int) (offset_in_cluster : Nat)
    (buf : Nat → UInt8) (len : Nat) : Int × Disk :=
  let sector := fat16_cluster_to_sector p cluster
  let byte_pos := i32 (sector * 512 + offset_in_cluster)
  let res := diskstreamer_seek diskstreamer_new byte_pos
  if res.1 < 0 then (res.1, d) else
  let res := diskstreamer_write d res.2 buf len
  (res.1, res.2.1)

/-- The step to the next cluster that both loops of `fat16_write_internal` make: follow the chain,
and extend it at its end. -/
def fat16_next_cluster (p : FatPrivate) (d : Disk) (current_cluster : Int) : Int × Disk :=
  let next := fat16_get_fat_entry p d current_cluster
  if next < 2 ∨ next ≥ fat16EocMin then fat16_alloc_cluster p d current_cluster
  else (next, d)

/-- The walk to the cluster that holds the file offset. A negative cluster is an error code. -/
def fat16_walk (p : FatPrivate) : Nat → Disk → Int → Int × Disk
  | 0, d, current_cluster => (current_cluster, d)
  | n + 1, d, current_cluster =>
    let next := fat16_next_cluster p d current_cluster
    if next.1 < 0 then next else fat16_walk p n next.2 next.1

def fat16_cluster_size (p : FatPrivate) : Nat := p.header.sectors_per_cluster.toNat * 512

/-- The copy loop. Every turn writes at least one byte, so `fuel = total` is enough. -/
def fat16_copy (p : FatPrivate) (src : Nat → UInt8) (total : Nat) :
    Nat → Disk → Int → Nat → Nat → Int × Disk
  | 0, d, _, _, written => (i32 written, d)
  | fuel + 1, d, current_cluster, offset_in_cluster, written =>
    if written < total then
      let space := u32 ((fat16_cluster_size p : Int) - offset_in_cluster)
      let to_write := if total - written < space then total - written else space
      let res := fat16_write_cluster_data p d current_cluster offset_in_cluster
        (fun i => src (written + i)) to_write
      if res.1 < 0 then res else
      let written := written + to_write
      if written < total then
        let next := fat16_next_cluster p res.2 current_cluster
        if next.1 < 0 then next else fat16_copy p src total fuel next.2 next.1 0 written
      else (i32 written, res.2)
    else (i32 written, d)

/-- Returns the result, `*first_cluster` and the disk. -/
def fat16_write_internal (p : FatPrivate) (d : Disk) (first_cluster file_offset : Nat)
    (data : Nat → UInt8) (total : Nat) : Int × Nat × Disk :=
  if first_cluster = 0 then
    let new_cluster := fat16_alloc_cluster p d (-1)
    if new_cluster.1 < 0 then (new_cluster.1, first_cluster, new_cluster.2) else
    let res := fat16_copy p data total total new_cluster.2 new_cluster.1
      (file_offset % fat16_cluster_size p) 0
    (res.1, u32 new_cluster.1, res.2)
  else
    let current_cluster :=
      fat16_walk p (file_offset / fat16_cluster_size p) d (i32 first_cluster)
    if current_cluster.1 < 0 then (current_cluster.1, first_cluster, current_cluster.2) else
    let res := fat16_copy p data total total current_cluster.2 current_cluster.1
      (file_offset % fat16_cluster_size p) 0
    (res.1, first_cluster, res.2)

def fat16_find_root_dir_slot_loop (p : FatPrivate) (name : Nat → UInt8) : Nat → Nat → Int
  | 0, _ => -1
  | n + 1, i =>
    let entry := p.root_directory.item i
    if entry.filename 0 = 0x00 then -1
    else if entry.filename 0 = 0xE5 then fat16_find_root_dir_slot_loop p name n (i + 1)
    else if entry.attr = 0x0F then fat16_find_root_dir_slot_loop p name n (i + 1)
    else if istrncmp (fat16_tmp_filename entry) name 108 = 0 then i
    else fat16_find_root_dir_slot_loop p name n (i + 1)

def fat16_find_root_dir_slot_by_name (p : FatPrivate) (name : Nat → UInt8) : Int :=
  fat16_find_root_dir_slot_loop p name p.header.root_dir_entries.toNat 0

def fat16_find_free_root_dir_slot_loop (p : FatPrivate) : Nat → Nat → Int
  | 0, _ => -ENOMEM
  | n + 1, i =>
    let first := (p.root_directory.item i).filename 0
    if first = 0x00 ∨ first = 0xE5 then i else fat16_find_free_root_dir_slot_loop p n (i + 1)

def fat16_find_free_root_dir_slot (p : FatPrivate) : Int :=
  fat16_find_free_root_dir_slot_loop p p.header.root_dir_entries.toNat 0

/-- `c - 32` for a lower-case letter. -/
def fat16_upper (c : UInt8) : UInt8 := if 97 ≤ c ∧ c ≤ 122 then c - 32 else c

/-- Both copy loops of `fat16_name_to_83`: at most `n` characters from `name + k` to `out + j`, up to
the end of the name, and with `dot` up to a `.`. Returns the output and the new index in the name. -/
def fat16_name_field (name : Nat → UInt8) (dot : Bool) :
    Nat → Nat → Nat → (Nat → UInt8) → (Nat → UInt8) × Nat
  | 0, k, _, out => (out, k)
  | n + 1, k, j, out =>
    let c := name k
    if c ≠ 0 ∧ ¬ (dot ∧ c = 0x2E) then
      fat16_name_field name dot n (k + 1) (j + 1) (fun i => if i = j then fat16_upper c else out i)
    else (out, k)

/-- The filename and ext fields of an entry for `name`. -/
def fat16_name_to_83 (name : Nat → UInt8) : (Fin 8 → UInt8) × (Fin 3 → UInt8) :=
  let (out_fname, k) := fat16_name_field name true 8 0 0 (fun _ => 0x20)
  let k := if name k = 0x2E then k + 1 else k
  let (out_ext, _) := fat16_name_field name false 3 k 0 (fun _ => 0x20)
  (fun i => out_fname i, fun i => out_ext i)

def fat16_write_root_dir_entry (p : FatPrivate) (d : Disk) (slot_index : Nat) : Int × Disk :=
  let byte_offset := i32 (p.root_directory.sector_pos * 512 + slot_index * 32)
  let res := diskstreamer_seek diskstreamer_new byte_offset
  if res.1 < 0 then (res.1, d) else
  let res := diskstreamer_write d res.2 (p.root_directory.item slot_index).byte 32
  (res.1, res.2.1)

/-! ## Public functions -/

/-- Stores an entry in memory and flushes it. -/
def fat16_store_entry (v : Volume) (slot : Nat) (it : FatDirectoryItem) : Volume :=
  let p := v.priv.setItem slot it
  { disk := (fat16_write_root_dir_entry p v.disk slot).2, priv := p }

/-- The entry of a truncated file. -/
def emptied (existing : FatDirectoryItem) : FatDirectoryItem :=
  { existing with filesize := 0, low_16_bits_first_cluster := 0, high_16_bits_first_cluster := 0 }

/-- The branch of `fat16_open` for an existing file: free the chain and reset the metadata. -/
def fat16_open_truncate (v : Volume) (slot : Nat) : Volume :=
  let existing := v.priv.root_directory.item slot
  let first_cluster := fat16_get_first_cluster existing
  let d := if first_cluster ≥ 2 then fat16_free_cluster_chain v.priv v.disk first_cluster else v.disk
  fat16_store_entry { v with disk := d } slot (emptied existing)

/-- The new entry for a name: zeroes, the name, and `FAT_FILE_ARCHIVED`. -/
def fat16_new_entry (name : Nat → UInt8) : FatDirectoryItem :=
  { FatDirectoryItem.zero with
    filename := (fat16_name_to_83 name).1, ext := (fat16_name_to_83 name).2, attr := 0x20 }

/-- The branch of `fat16_open` that takes a new root directory slot. -/
def fat16_open_create (v : Volume) (slot : Nat) (name : Nat → UInt8) : Volume :=
  let v := fat16_store_entry v slot (fat16_new_entry name)
  if (slot : Int) ≥ v.priv.root_directory.total then
    { v with priv := { v.priv with root_directory :=
      { v.priv.root_directory with total := slot + 1 } } }
  else v

/-- The descriptor of a slot opened for writing. The three allocations come one after the other. -/
def fat16_open_descriptor (v : Volume) (slot : Nat) (kzalloc : FatMemory) :
    Except Int FatFileDescriptor :=
  if !kzalloc 0 then .error (-ENOMEM)
  else if !kzalloc 1 then .error (-ENOMEM)
  else if !kzalloc 2 then .error (-ENOMEM)
  else .ok
    { item := { type := .file, item := v.priv.root_directory.item slot, directory := none }
      pos := 0
      root_dir_slot := slot }

def fat16_open_write (v : Volume) (part : Nat → UInt8) (kzalloc : FatMemory) :
    Volume × Except Int FatFileDescriptor :=
  let slot := fat16_find_root_dir_slot_by_name v.priv part
  if slot ≥ 0 then
    let v := fat16_open_truncate v slot.toNat
    (v, fat16_open_descriptor v slot.toNat kzalloc)
  else
    let slot := fat16_find_free_root_dir_slot v.priv
    if slot < 0 then (v, .error (-ENOMEM)) else
    let v := fat16_open_create v slot.toNat part
    (v, fat16_open_descriptor v slot.toNat kzalloc)

def fat16_open_read (v : Volume) (part : Nat → UInt8) (next : List (Nat → UInt8))
    (kzalloc : FatMemory) : Except Int FatFileDescriptor :=
  if !kzalloc 0 then .error (-ENOMEM) else
  match fat16_get_directory_entry v.priv part next kzalloc with
  | none => .error (- EIO)
  | some item => .ok { item := item, pos := 0, root_dir_slot := -1 }

def fat16_open (v : Volume) (part : Nat → UInt8) (next : List (Nat → UInt8)) (mode : FileMode)
    (kzalloc : FatMemory) : Volume × Except Int FatFileDescriptor :=
  match mode with
  | .read => (v, fat16_open_read v part next kzalloc)
  | .write => fat16_open_write v part kzalloc
  | _ => (v, .error (-EINVARG))

/-- Returns the result and the memory at `stat`. -/
def fat16_stat (desc : FatFileDescriptor) (stat : FileStat) : Int × FileStat :=
  if desc.item.type ≠ .file then (-EINVARG, stat) else
  (0, { flags := if desc.item.item.attr &&& 0x01 ≠ 0 then 1 else 0
        filesize := desc.item.item.filesize.toNat })

def fat16_read_loop (v : Volume) (item : FatDirectoryItem) (size : Nat) :
    Nat → Int → (Nat → UInt8) → Int × (Nat → UInt8)
  | 0, _, out => (0, out)
  | n + 1, offset, out =>
    let (res, out') := fat16_read_internal v.priv v.disk (i32 (fat16_get_first_cluster item)) offset
      (i32 size) out
    if res < 0 then (res, out') else
    let (res, rest) := fat16_read_loop v item size n (i32 (offset + size)) (fun i => out' (i + size))
    (res, fun i => if i < size then out' i else rest (i - size))

/-- Returns the result and the memory at `out_ptr`. -/
def fat16_read (v : Volume) (desc : FatFileDescriptor) (size nmemb : Nat) (out : Nat → UInt8) :
    Int × (Nat → UInt8) :=
  let (res, out) := fat16_read_loop v desc.item.item size nmemb (i32 desc.pos) out
  if res < 0 then (res, out) else (i32 nmemb, out)

/-- The item of the descriptor after `bytes_written` bytes went to the chain at `first_cluster`. -/
def fat16_grown_item (item : FatDirectoryItem) (first_cluster pos bytes_written : Nat) :
    FatDirectoryItem :=
  let item := if item.low_16_bits_first_cluster = 0 ∧ first_cluster ≠ 0 then
    { item with
      low_16_bits_first_cluster := UInt16.ofNat first_cluster
      high_16_bits_first_cluster := UInt16.ofNat (first_cluster / 65536) } else item
  let new_end := u32 (pos + bytes_written)
  if new_end > item.filesize.toNat then { item with filesize := UInt32.ofNat new_end } else item

def fat16_write (v : Volume) (desc : FatFileDescriptor) (size nmemb : Nat) (buf : Nat → UInt8) :
    Int × Volume × FatFileDescriptor :=
  let item := desc.item.item
  let total := u32 (size * nmemb)
  let res := fat16_write_internal v.priv v.disk (fat16_get_first_cluster item) desc.pos buf total
  let bytes_written := res.1
  let first_cluster := res.2.1
  let v := { v with disk := res.2.2 }
  if bytes_written < 0 then (bytes_written, v, desc) else
  let item := fat16_grown_item item first_cluster desc.pos bytes_written.toNat
  let desc := { desc with
    item := { desc.item with item := item }, pos := u32 (desc.pos + bytes_written) }
  if desc.root_dir_slot ≥ 0 then
    (i32 nmemb, fat16_store_entry v desc.root_dir_slot.toNat item, desc)
  else (i32 nmemb, v, desc)

def fat16_delete (v : Volume) (part : Nat → UInt8) : Int × Volume :=
  let slot := fat16_find_root_dir_slot_by_name v.priv part
  if slot < 0 then (- EIO, v) else
  let item := v.priv.root_directory.item slot.toNat
  let first_cluster := fat16_get_first_cluster item
  let d := if first_cluster ≥ 2 then fat16_free_cluster_chain v.priv v.disk first_cluster else v.disk
  (0, fat16_store_entry { v with disk := d } slot.toNat
    { item with
      filename := fun i => if i = 0 then 0xE5 else item.filename i
      filesize := 0
      low_16_bits_first_cluster := 0
      high_16_bits_first_cluster := 0 })

/-- The slot of the `index`-th listed entry: not deleted, no volume label, no subdirectory. -/
def fat16_readdir_loop (p : FatPrivate) (index : Int) : Nat → Nat → Int → Option Nat
  | 0, _, _ => none
  | n + 1, i, count =>
    let entry := p.root_directory.item i
    if entry.filename 0 = 0x00 then none
    else if entry.filename 0 = 0xE5 then fat16_readdir_loop p index n (i + 1) count
    else if entry.attr &&& 0x18 ≠ 0 then fat16_readdir_loop p index n (i + 1) count
    else if count = index then some i
    else fat16_readdir_loop p index n (i + 1) (count + 1)

/-- Returns the result and the memory at `buf`. -/
def fat16_readdir (p : FatPrivate) (index : Int) (buf : Nat → UInt8) (buf_size : Nat) :
    Int × (Nat → UInt8) :=
  match fat16_readdir_loop p index p.header.root_dir_entries.toNat 0 0 with
  | some i => (1, fat16_get_full_relative_filename (p.root_directory.item i) buf buf_size)
  | none => (0, buf)

def fat16_seek (desc : FatFileDescriptor) (offset : Nat) (seek_mode : SeekMode) :
    Int × FatFileDescriptor :=
  if desc.item.type ≠ .file then (-EINVARG, desc)
  else if offset ≥ desc.item.item.filesize.toNat then (- EIO, desc)
  else match seek_mode with
    | .set => (0, { desc with pos := offset })
    | .end_ => (-EUNIMP, desc)
    | .cur => (0, { desc with pos := u32 (desc.pos + offset) })
    | .other => (-EINVARG, desc)

end PeachOS
