import PeachOS.Spec.Freeing

/-!
# The FAT as an array

A copy of the FAT is an array of 16-bit entries. The driver reads copy 0 and keeps copy 1 in step with it.
-/

open PeachOS.Lib

namespace PeachOS

/-- The entries of one copy, 256 to a sector. -/
def fatEntries (p : FatPrivate) : Nat := 256 * p.header.sectors_per_fat.toNat

def fatArray (p : FatPrivate) (copy : Nat) (s : Nat → Sector) : Fin (fatEntries p) → Nat := fun c => fatCopy p s copy c

/-- `fat16_set_fat_entry` is an assignment to entry `c` of both arrays, and to nothing else on the disk. -/
structure AssignsEntry (p : FatPrivate) (d : Disk) (c : Fin (fatEntries p)) (v : UInt16) : Prop where
  succeeds : (fat16_set_fat_entry p d (c : Nat) v.toNat).1 = 0
  /-- What the driver reads afterwards. -/
  reads : ∀ x : Fin (fatEntries p), fat16_get_fat_entry p (fat16_set_fat_entry p d (c : Nat) v.toNat).2 (x : Nat) =
    if x = c then (v.toNat : Int) else fat16_get_fat_entry p d (x : Nat)
  copies : ∀ copy < 2, fatArray p copy (fat16_set_fat_entry p d (c : Nat) v.toNat).2.sector =
    Function.update (fatArray p copy d.sector) c v.toNat
  others : ∀ a, ¬ InEntry p c a →
    cellAt (fat16_set_fat_entry p d (c : Nat) v.toNat).2.sector a = cellAt d.sector a

/-- The disk after a sequence of assignments. -/
def setEntries (p : FatPrivate) (d : Disk) (l : List (Fin (fatEntries p) × UInt16)) : Disk :=
  l.foldl (fun d a => (fat16_set_fat_entry p d (a.1 : Nat) a.2.toNat).2) d

/-- The same sequence on an array. -/
def assignAll {n : Nat} (f : Fin n → Nat) (l : List (Fin n × UInt16)) : Fin n → Nat :=
  l.foldl (fun f a => Function.update f a.1 a.2.toNat) f

end PeachOS
