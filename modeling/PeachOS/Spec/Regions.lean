import PeachOS.Code.Fat16
import PeachOS.Lib.Paged

/-!
# The regions of a disk

A header divides the disk into FAT copies, root directory and clusters. Every function of the driver works out
again where they are. `RegionsApart` says that what it reads and writes stays in the region it is meant for.
-/

open PeachOS.Lib

namespace PeachOS

namespace FatHeader

variable (h : FatHeader)

def totalSectors : Nat :=
  if h.number_of_sectors ≠ 0 then h.number_of_sectors.toNat else h.sectors_big.toNat

/-- The first sector of the root directory, after all the FAT copies. -/
def rootSector : Nat := h.reserved_sectors.toNat + h.fat_copies.toNat * h.sectors_per_fat.toNat

/-- The first sector of the clusters. -/
def dataSector : Nat := h.rootSector + h.root_dir_entries.toNat * 32 / 512

def clusters : Nat := (h.totalSectors - h.dataSector) / h.sectors_per_cluster.toNat

/-- The byte `a` of the disk is in FAT copy `j`. -/
def InFat (j a : Nat) : Prop :=
  (h.reserved_sectors.toNat + j * h.sectors_per_fat.toNat) * 512 ≤ a ∧
    a < (h.reserved_sectors.toNat + (j + 1) * h.sectors_per_fat.toNat) * 512

def rootEnd : Nat := h.rootSector * 512 + h.root_dir_entries.toNat * 32

def InRoot (a : Nat) : Prop := h.rootSector * 512 ≤ a ∧ a < h.rootEnd

instance (a : Nat) : Decidable (h.InRoot a) := inferInstanceAs (Decidable (_ ∧ _))

/-- There is no cluster to find: the volume ends before the first one, or its size or the number of the last one is a
negative `int`. -/
def NoCluster : Prop :=
  h.totalSectors < h.dataSector + h.sectors_per_cluster.toNat ∨ 0x80000000 + h.dataSector ≤ h.totalSectors ∨
    h.clusters = 0x7FFFFFFF

instance : Decidable h.NoCluster := inferInstanceAs (Decidable (_ ∨ _ ∨ _))

/-- The headers that keep the regions apart, with `tail` sectors after the last cluster. -/
def Sound (tail : Nat) : Prop :=
  h.sectors_per_cluster ≠ 0 ∧
  if h.NoCluster then h.root_dir_entries.toNat = 0 ∨ h.rootEnd ≤ 0x80000000
  else h.fat_copies = 2 ∧ h.root_dir_entries.toNat % 16 = 0 ∧
    h.clusters + 2 ≤ 256 * h.sectors_per_fat.toNat ∧
    h.dataSector + h.clusters * h.sectors_per_cluster.toNat ≤ 0x400000 ∧
    h.dataSector + h.clusters * h.sectors_per_cluster.toNat + tail ≤ h.totalSectors

instance (tail : Nat) : Decidable (h.Sound tail) := inferInstanceAs (Decidable (_ ∧ ite _ _ _))

end FatHeader

/-- `e` has another byte than `d` at the address `a`. -/
def Changed (d e : Disk) (a : Nat) : Prop := cellAt e.sector a ≠ cellAt d.sector a

instance (d e : Disk) (a : Nat) : Decidable (Changed d e a) := inferInstanceAs (Decidable (_ ≠ _))

/-- Some disk makes `fat16_find_free_cluster` return `c`. -/
def CanReturn (p : FatPrivate) (c : Nat) : Prop := ∃ d, fat16_find_free_cluster p d = c

structure RegionsApart (p : FatPrivate) (tail : Nat) : Prop where
  /-- What cluster counts and offsets are divided by. -/
  divisors : p.header.sectors_per_cluster.toNat ≠ 0 ∧ fat16_cluster_size p ≠ 0
  /-- The entry of `c` is read from the first FAT. -/
  read : ∀ c, CanReturn p c → ∀ d e : Disk,
    (∀ a, p.header.InFat 0 a → cellAt d.sector a = cellAt e.sector a) →
    fat16_get_fat_entry p d c = fat16_get_fat_entry p e c
  written : ∀ c, CanReturn p c → ∀ d v a, Changed d (fat16_set_fat_entry p d c v).2 a →
    ∃ j < p.header.fat_copies.toNat, p.header.InFat j a
  copies : ∀ c, CanReturn p c → ∀ d v, v < 65536 → ∀ j < p.header.fat_copies.toNat,
    le16 (fun i => cellAt (fat16_set_fat_entry p d c v).2.sector
      ((p.header.reserved_sectors.toNat + j * p.header.sectors_per_fat.toNat) * 512 + 2 * c + i)) = v
  cluster : ∀ c, CanReturn p c → ∀ d off buf len, off < fat16_cluster_size p →
    off + len ≤ fat16_cluster_size p → ∀ a,
    Changed d (fat16_write_cluster_data p d c off buf len).2 a →
    p.header.rootEnd ≤ a ∧ a + tail * 512 < p.header.totalSectors * 512
  entry : ∀ slot < p.header.root_dir_entries.toNat, ∀ d a,
    Changed d (fat16_write_root_dir_entry p d slot).2 a → p.header.InRoot a

end PeachOS
