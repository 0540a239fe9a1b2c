import PeachOS.Fat.Names
import PeachOS.Spec.System

/-!
# The root directory in memory

What a mount has to say about the number of entries, and what a listing may write.
-/

namespace PeachOS

/-! ## The number of entries -/

/-- The first byte of the 32 bytes that a stream gives at slot `i` of a directory at `pos`. -/
def slotFirst (d : Disk) (pos : Int) (i : Nat) : UInt8 :=
  (diskstreamer_read d ⟨i32 (pos + 32 * i), 0⟩ (fun _ => 0) 32).2.1 0

/-- The sector at which the boot sector puts the root directory. -/
def rootSector (header : FatHeader) : Int :=
  header.fat_copies.toNat * header.sectors_per_fat.toNat + header.reserved_sectors.toNat

/-- The number of entries that the read lookup goes through is safe: the count at mount has looked at slots of the root
directory only, so it has ended after at most `root_dir_entries` turns, and after every run the number is at most
`root_dir_entries`. -/
structure BoundSafe (d : Disk) (v : Volume) : Prop where
  counted : fat16_get_total_items_for_directory v.priv.header.root_dir_entries.toNat d (rootSector v.priv.header) ≠ none
  bound : ∀ calls : List Call,
    let p := (calls.foldl Sys.step (Sys.start v)).vol.priv
    0 ≤ p.root_directory.total ∧ p.root_directory.total ≤ v.priv.header.root_dir_entries.toNat

/-! ## Listing -/

/-- The slots that a listing shows, in order: those before the first never-used slot that are not deleted, no volume
label and no subdirectory. -/
def listedSlots (p : FatPrivate) : List Nat :=
  ((List.range p.header.root_dir_entries.toNat).takeWhile fun i => (p.root_directory.item i).filename 0 ≠ 0x00).filter
    fun i => (p.root_directory.item i).filename 0 ≠ 0xE5 ∧ (p.root_directory.item i).attr &&& 0x18 = 0

def listedSlot (p : FatPrivate) (index : Int) : Option Nat :=
  if index < 0 then none else (listedSlots p)[index.toNat]?

/-- Whatever the buffer holds before, nothing behind its `buf_size` bytes is written, and a name that is reported ends
inside it. -/
def ListsSafely (p : FatPrivate) (index : Int) (buf_size : Nat) : Prop :=
  ∀ buf : Nat → UInt8, (∀ i, buf_size ≤ i → (fat16_readdir p index buf buf_size).2 i = buf i) ∧
    ((fat16_readdir p index buf buf_size).1 = 1 → ∃ i < buf_size, (fat16_readdir p index buf buf_size).2 i = 0)

end PeachOS
