import PeachOS.Spec.ShortNames
import PeachOS.Spec.Paths

/-!
# Files that are created

A file that was created under a name should be the file of that name from then on.
-/

namespace PeachOS

/-- The text fits the fields of an entry: up to eight characters without a dot and without a space, and if it goes on,
a dot and up to three characters without a space. -/
def FitsShort (text : List UInt8) : Prop :=
  text ≠ [] ∧ ∃ base ext, text = joinName base ext ∧ base.length ≤ 8 ∧ ext.length ≤ 3 ∧
    (∀ c ∈ base, c ≠ 0x2E ∧ c ≠ 0x20) ∧ ∀ c ∈ ext, c ≠ 0x20

/-- The text fits, and its first byte is not the mark of deleted entries. -/
def Findable (text : List UInt8) : Prop := FitsShort text ∧ text.head? ≠ some 0xE5

/-- A part of a path: `pathparser_parse` makes no part that is longer than 105 bytes. -/
structure IsPart (text : List UInt8) : Prop extends IsComponent text where
  length_le : text.length ≤ 105

/-- There is no file of this name, and `slot` is the slot that a new one gets. -/
def Creates (p : FatPrivate) (name : Nat → UInt8) (slot : Nat) : Prop :=
  fat16_find_root_dir_slot_by_name p name < 0 ∧ fat16_find_free_root_dir_slot p = slot

/-- The file in `slot` is the file of this name: the lookup finds it, an open for writing empties it and leaves every
other entry alone, and a delete marks it as deleted and leaves every other entry alone. -/
structure FoundAgain (v : Volume) (name : Nat → UInt8) (slot : Nat) : Prop where
  found : fat16_find_root_dir_slot_by_name v.priv name = slot
  truncated : ∀ kzalloc i, (fat16_open_write v name kzalloc).1.priv.root_directory.item i =
    if i = slot then { v.priv.root_directory.item slot with
      filesize := 0, low_16_bits_first_cluster := 0, high_16_bits_first_cluster := 0 }
    else v.priv.root_directory.item i
  deleted : (fat16_delete v name).1 = 0 ∧
    ((fat16_delete v name).2.priv.root_directory.item slot).filename 0 = 0xE5 ∧
    ∀ i ≠ slot, (fat16_delete v name).2.priv.root_directory.item i = v.priv.root_directory.item i

/-- No two live entries have the same name. -/
def DistinctNames (p : FatPrivate) : Prop :=
  ∀ i < p.header.root_dir_entries.toNat, ∀ j < p.header.root_dir_entries.toNat, i ≠ j →
    Live (p.root_directory.item i) → Live (p.root_directory.item j) →
      entryName (p.root_directory.item i) ≠ entryName (p.root_directory.item j)

/-- No live entry is behind a slot that was never used. -/
def NoneBehindEnd (p : FatPrivate) : Prop :=
  ∀ i j, i < j → j < p.header.root_dir_entries.toNat → (p.root_directory.item i).filename 0 = 0x00 →
    ¬ Live (p.root_directory.item j)

/-- Opens for writing, one after the other. Each has its results of `kzalloc`. -/
def openAll (v : Volume) (names : List (List UInt8 × FatMemory)) : Volume :=
  names.foldl (fun v name => (fat16_open_write v (cstr name.1) name.2).1) v

end PeachOS
