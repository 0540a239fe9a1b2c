import PeachOS.Code.Fat16

/-!
# The lookup with the directories it loads, `fat16.c`

`fat16_new_fat_item_for_directory_item` loads the entries of a subdirectory, and then the item overwrites the pointer to
them. The lookup in `Fat16.lean` leaves the loading out. Here it is in: counting the entries on the disk may not end.
`kzalloc` says of an entry whether the two allocations of its load find memory, and `memory` has those of the item.
-/

namespace PeachOS

/-- What `fat16_load_fat_directory` returns: null, a pointer to memory it has freed, or a directory. -/
inductive LoadedDirectory
  | null | freed | loaded (directory : FatDirectory)

/-- `none` means that the count has not ended after `fuel` entries. -/
def fat16_load_fat_directory (fuel : Nat) (p : FatPrivate) (d : Disk) (kzalloc : FatDirectoryItem → Nat → Bool)
    (item : FatDirectoryItem) : Option LoadedDirectory :=
  if item.attr &&& 0x10 = 0 then some .null
  else if !kzalloc item 0 then some .null
  else
    let cluster := i32 (fat16_get_first_cluster item)
    let cluster_sector := fat16_cluster_to_sector p cluster
    match fat16_get_total_items_for_directory fuel d cluster_sector with
    | none => none
    | some total_items =>
      let directory_size := i32 (total_items * 32)
      if !kzalloc item 1 then some .freed else
      let (res, block) := fat16_read_internal p d cluster 0x00 directory_size (fun _ => 0)
      if res ≠ 0 then some .freed
      else some (.loaded
        { item := fun i => FatDirectoryItem.ofBytes fun k => block (32 * i + k)
          total := total_items
          sector_pos := 0
          ending_sector_pos := 0 })

/-- The directory that the pointer leads to. -/
def LoadedDirectory.get? : LoadedDirectory → Option FatDirectory
  | .loaded directory => some directory
  | _ => none

namespace Loading

variable (fuel : Nat) (p : FatPrivate) (d : Disk) (kzalloc : FatDirectoryItem → Nat → Bool) (memory : FatMemory)

def fat16_new_fat_item_for_directory_item (item : FatDirectoryItem) : Option (Option FatItem) :=
  if !memory 1 then some none else
  let f_item : FatItem := { type := .directory, item := .zero, directory := none }
  let f_item :=
    if item.attr &&& 0x10 ≠ 0 then
      (fat16_load_fat_directory fuel p d kzalloc item).map fun directory =>
        { f_item with directory := directory.get?, type := .directory }
    else some f_item
  f_item.map fun f_item =>
    some { f_item with type := .file, item := fat16_clone_directory_item item memory, directory := none }

def fat16_find_item_loop (directory : FatDirectory) (name : Nat → UInt8) :
    Nat → Nat → Option FatItem → Option (Option FatItem)
  | 0, _, f_item => some f_item
  | n + 1, i, f_item =>
    if istrncmp (fat16_tmp_filename (directory.item i)) name 108 = 0 then
      match fat16_new_fat_item_for_directory_item fuel p d kzalloc memory (directory.item i) with
      | none => none
      | some f_item => fat16_find_item_loop directory name n (i + 1) f_item
    else fat16_find_item_loop directory name n (i + 1) f_item

def fat16_find_item_in_directory (directory : FatDirectory) (name : Nat → UInt8) : Option (Option FatItem) :=
  fat16_find_item_loop fuel p d kzalloc memory directory name directory.total.toNat 0 none

def fat16_get_directory_entry_loop (current_item : FatItem) : List (Nat → UInt8) → Option (Option FatItem)
  | [] => some (some current_item)
  | part :: rest =>
    if current_item.type ≠ .directory then some none else
    match current_item.directory with
    | none => some none
    | some directory =>
      match fat16_find_item_in_directory fuel p d kzalloc memory directory part with
      | none => none
      | some none => some none
      | some (some tmp_item) => fat16_get_directory_entry_loop tmp_item rest

/-- `none` means that a load has not ended, and `some none` is the null pointer. -/
def fat16_get_directory_entry (part : Nat → UInt8) (next : List (Nat → UInt8)) : Option (Option FatItem) :=
  match fat16_find_item_in_directory fuel p d kzalloc memory p.root_directory part with
  | none => none
  | some none => some none
  | some (some current_item) => fat16_get_directory_entry_loop fuel p d kzalloc memory current_item next

end Loading

end PeachOS
