import PeachOS.Spec.Regions

/-!
# Byte positions

`fat16_write_cluster_data` and `fat16_read_internal_from_stream` turn a cluster and an offset in it into a
byte position of the disk, which they keep in a signed 32-bit `int`.
-/

namespace PeachOS

namespace FatHeader

variable (h : FatHeader)

/-- The first sector of a cluster. -/
def clusterSector (c : Nat) : Nat := h.dataSector + (c - 2) * h.sectors_per_cluster.toNat

/-- The clusters that the driver works with, if any, end at 2 GiB or before. -/
def EndsBelow : Prop :=
  h.NoCluster ∨ h.clusters = 0 ∨ h.dataSector + h.clusters * h.sectors_per_cluster.toNat ≤ 0x400000

instance : Decidable h.EndsBelow := inferInstanceAs (Decidable (_ ∨ _ ∨ _))

end FatHeader

/-- The position as both functions compute it. -/
def bytePos (p : FatPrivate) (c off : Nat) : Int := i32 (fat16_cluster_to_sector p c * 512 + off)

/-- What a call of `fat16_read_internal_from_stream` does after its seek. -/
def readFrom (p : FatPrivate) (d : Disk) (cluster : Int) (fuel : Nat) (stream : DiskStream) (offset total : Int)
    (out : Nat → UInt8) : Int × (Nat → UInt8) :=
  let size_of_cluster_bytes : Int := p.header.sectors_per_cluster.toNat * 512
  let total_to_read := if total > size_of_cluster_bytes then size_of_cluster_bytes else total
  let (res, out', _) := diskstreamer_read d stream out total_to_read
  if res ≠ 0 then (res, out') else
  if total - total_to_read > 0 then
    let k := total_to_read.toNat
    let (res, rest) := fat16_read_internal_rec p d cluster fuel (i32 (offset + total_to_read))
      (total - total_to_read) (fun i => out' (i + k))
    (res, fun i => if i < k then out' i else rest (i - k))
  else (res, out')

/-- Both functions seek to `pos` for the byte `off` of cluster `c`, wherever that byte comes up. -/
structure SeeksTo (p : FatPrivate) (c off : Nat) (pos : Int) : Prop where
  write : ∀ d buf len, fat16_write_cluster_data p d c off buf len =
    ((diskstreamer_write d ⟨pos, 0⟩ buf len).1, (diskstreamer_write d ⟨pos, 0⟩ buf len).2.1)
  read : ∀ d cluster fuel offset total out, fat16_get_cluster_for_offset p d cluster offset = c →
    offset.tmod (p.header.sectors_per_cluster.toNat * 512) = off →
    fat16_read_internal_rec p d cluster (fuel + 1) offset total out =
      readFrom p d cluster fuel ⟨pos, 0⟩ offset total out

/-- A position that is the byte `off` of cluster `c`: as a number, and after the division by which
`diskstreamer_read` and `diskstreamer_write` find the sector. -/
structure PositionExact (h : FatHeader) (c off : Nat) (pos : Int) : Prop where
  value : pos = h.clusterSector c * 512 + off
  nonneg : 0 ≤ pos
  sector : u32 (pos.tdiv 512) = h.clusterSector c + off / 512

end PeachOS
