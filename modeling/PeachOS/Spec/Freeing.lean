import PeachOS.Code.Fat16
import PeachOS.Lib.Erasing
import PeachOS.Lib.Paged

/-!
# What freeing a chain should do

The loop of `fat16_free_cluster_chain` follows links that may be anything. Wherever they lead, it should
end, and zero the entries of the clusters it came by and nothing else.
-/

open PeachOS.Lib

namespace PeachOS

/-- A link that the loop follows: neither free nor reserved, bad or an end of chain. -/
def Followed (c : Nat) : Prop := 2 ≤ c ∧ c ≤ 0xFFF7

instance (c : Nat) : Decidable (Followed c) := inferInstanceAs (Decidable (_ ∧ _))

/-- The byte at which copy `k` of the FAT has the entry of a cluster. -/
def entryPos (p : FatPrivate) (k c : Nat) : Nat :=
  (p.header.reserved_sectors.toNat + k * p.header.sectors_per_fat.toNat) * 512 + 2 * c

/-- The entry of a cluster in copy `k` of the FAT. -/
def fatCopy (p : FatPrivate) (s : Nat → Sector) (k c : Nat) : Nat :=
  le16 fun i => cellAt s (entryPos p k c + i)

/-- The links, one for each 16-bit cluster number. -/
def fatLink (p : FatPrivate) (s : Nat → Sector) (c : Nat) : Nat := if c < 65536 then fatCopy p s 0 c else 0

/-- The clusters that following the links from `first` comes by. -/
def Visited (p : FatPrivate) (s : Nat → Sector) (first c : Nat) : Prop :=
  Followed first ∧ OnWay Followed (fatLink p s) first c

/-- A byte of the entry of a cluster, in one of the two copies. -/
def InEntry (p : FatPrivate) (c a : Nat) : Prop :=
  (entryPos p 0 c ≤ a ∧ a < entryPos p 0 c + 2) ∨ (entryPos p 1 c ≤ a ∧ a < entryPos p 1 c + 2)

/-- The loop of `fat16_free_cluster_chain` with at most so many turns: `none` if it has not ended. -/
def freeChainWithin (p : FatPrivate) : Nat → Disk → Int → Option Disk
  | 0, _, _ => none
  | n + 1, d, cluster =>
    if cluster ≥ 2 ∧ cluster < fat16EocMin then
      let next := fat16_get_fat_entry p d cluster
      let d := (fat16_set_fat_entry p d cluster 0x0000).2
      if next < 2 ∨ next ≥ fat16EocMin then some d
      else freeChainWithin p n d next
    else some d

end PeachOS
