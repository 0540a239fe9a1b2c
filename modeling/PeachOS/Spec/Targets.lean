import PeachOS.Fat.Lookup

/-!
# What a path may destroy

`fat16_delete` and `fat16_open` for writing free the clusters of an entry of the root directory and change the
entry. It should be the entry that the whole path stands for, and a file.
-/

namespace PeachOS

/-- Neither a volume label nor a subdirectory. -/
def RegularFile (it : FatDirectoryItem) : Prop := it.attr &&& 0x18 = 0

instance (it : FatDirectoryItem) : Decidable (RegularFile it) := inferInstanceAs (Decidable (_ = _))

/-- The entry that a name stands for in the root directory: the first live one that shows it. -/
structure Named (p : FatPrivate) (name : Nat → UInt8) (j : Nat) : Prop where
  lt : j < p.header.root_dir_entries.toNat
  live : Live (p.root_directory.item j)
  shows : Matches (p.root_directory.item j) name
  first : ∀ k < j, (p.root_directory.item k).filename 0 ≠ 0x00 ∧
    ¬ (Live (p.root_directory.item k) ∧ Matches (p.root_directory.item k) name)

/-- The path `part :: next` designates the file in slot `j` of the root directory. With more than one part it
designates an entry of a subdirectory instead. -/
structure Designates (p : FatPrivate) (part : Nat → UInt8) (next : List (Nat → UInt8)) (j : Nat) : Prop extends
    Named p part j where
  whole : next = []
  regular : RegularFile (p.root_directory.item j)

/-- A call with the path `part :: next` that turns `v` into `v'` destroys nothing but the designated file. -/
structure HitsDesignated (L : Layout) (v : Volume) (part : Nat → UInt8) (next : List (Nat → UInt8)) (v' : Volume) :
    Prop where
  entries : ∀ j < L.rde, ¬ FreeSlot (v.priv.root_directory.item j) →
    v'.priv.root_directory.item j ≠ v.priv.root_directory.item j → Designates v.priv part next j
  /-- Without a designated file, no FAT entry changes, and no existing entry on the disk. -/
  otherwise : (∀ j, ¬ Designates v.priv part next j) →
    (v'.view L).fat = (v.view L).fat ∧ (v'.view L).mirror = (v.view L).mirror ∧
    ∀ j < L.rde, ¬ FreeSlot ((v.view L).dir j) → (v'.view L).dir j = (v.view L).dir j
  /-- On a disk whose chains are in order, only the clusters of the designated file are freed. -/
  chain : ∀ j, Designates v.priv part next j → L.Small → ChainsOk L (v.view L) →
    ∃ l, ClusterList L (v.view L).fat (fat16_get_first_cluster ((v.view L).dir j)) l ∧
      (∀ c, c ∉ l → (v'.view L).fat c = (v.view L).fat c ∧ (v'.view L).mirror c = (v.view L).mirror c) ∧
      ∀ k, k ≠ j → (v'.view L).dir k = (v.view L).dir k

/-- What the first part names, if anything, is designated by the whole path. -/
def NamesWhole (p : FatPrivate) (part : Nat → UInt8) (next : List (Nat → UInt8)) : Prop :=
  ∀ j, Named p part j → next = [] ∧ RegularFile (p.root_directory.item j)

/-- Besides, an open for writing does no harm to an entry that is empty already. -/
def NamesWholeOrEmpty (p : FatPrivate) (part : Nat → UInt8) (next : List (Nat → UInt8)) : Prop :=
  ∀ j, Named p part j → (next = [] ∧ RegularFile (p.root_directory.item j)) ∨
    ((p.root_directory.item j).filesize = 0 ∧ fat16_get_first_cluster (p.root_directory.item j) = 0)

end PeachOS
