import PeachOS.Spec.Layout

/-!
# What a reader finds on the disk

The FAT is a table on the disk, and a file is a chain in it. The reader takes some values for errors that are
good links, and it takes no value for the end of a chain.
-/

open PeachOS.Lib

namespace PeachOS

/-- The entry of a cluster in the first FAT. -/
def fatTable (p : FatPrivate) (d : Disk) (c : Nat) : Nat :=
  le16 fun i => cellAt d.sector (p.header.reserved_sectors.toNat * 512 + 2 * c + i)

/-- The values that the writer takes for a link. -/
def Link (c : Nat) : Prop := 2 ≤ c ∧ c ≤ 0xFFF6

instance (c : Nat) : Decidable (Link c) := inferInstanceAs (Decidable (_ ∧ _))

/-- The clusters of a file, as the writer follows them. -/
def FileChain (p : FatPrivate) (d : Disk) (first : Nat) (l : List Nat) : Prop :=
  Chain (fatTable p d) Link Eoc first l

/-- The values that the reader takes for an error. -/
def Refused (v : Nat) : Prop := v = 0 ∨ v = 0xFF0 ∨ v = 0xFF6 ∨ v = 0xFF7 ∨ v = 0xFF8 ∨ v = 0xFFF

instance (v : Nat) : Decidable (Refused v) := inferInstanceAs (Decidable (_ ∨ _ ∨ _ ∨ _ ∨ _ ∨ _))

/-- One of the first `k` values that the table leads to from `c` is refused. -/
def Blocked (p : FatPrivate) (d : Disk) (c k : Nat) : Prop :=
  ∃ j, 1 ≤ j ∧ j ≤ k ∧ Refused ((fatTable p d)^[j] c)

/-- The reader finds the cluster of an offset, and no cluster behind the end of the chain. -/
def WalkAgrees (p : FatPrivate) (d : Disk) (first : Nat) (l : List Nat) (offset : Nat) : Prop :=
  match l[offset / fat16_cluster_size p]? with
  | some c => fat16_get_cluster_for_offset p d first offset = c
  | none => fat16_get_cluster_for_offset p d first offset < 0

/-! ## Contents -/

/-- The position of the first byte of a cluster. -/
def clusterByte (p : FatPrivate) (c : Nat) : Int :=
  (p.root_directory.ending_sector_pos + ((c : Int) - 2) * p.header.sectors_per_cluster.toNat) * 512

/-- Byte `q` of the clusters of a file, one after the other. -/
def chainByte (p : FatPrivate) (d : Disk) (l : List Nat) (q : Nat) : UInt8 :=
  cellAt d.sector ((clusterByte p (l.getD (q / fat16_cluster_size p) 0)).toNat + q % fat16_cluster_size p)

/-- The bytes of the clusters have positions below 2^31. -/
structure InDisk (p : FatPrivate) (l : List Nat) : Prop where
  size : 0 < fat16_cluster_size p
  start : ∀ c ∈ l, 0 ≤ clusterByte p c
  stop : ∀ c ∈ l, clusterByte p c + fat16_cluster_size p ≤ 0x80000000

/-- A file that the reader can walk along: none of its clusters has a number that is refused. -/
structure Readable (p : FatPrivate) (d : Disk) (first : Nat) (l : List Nat) : Prop where
  chain : FileChain p d first l
  avoids : ∀ c ∈ l, ¬ Refused c
  inDisk : InDisk p l

/-! ## Any stream -/

/-- `fat16_read_internal_from_stream`, over any way to read from a stream. -/
def fat16_read_internal_from_stream
    (read : Disk → DiskStream → (Nat → UInt8) → Int → Int × (Nat → UInt8) × DiskStream) (p : FatPrivate) (d : Disk)
    (cluster : Int) : Nat → Int → Int → (Nat → UInt8) → Int × (Nat → UInt8)
  | 0, _, _, out => (0, out)
  | fuel + 1, offset, total, out =>
    let size_of_cluster_bytes : Int := p.header.sectors_per_cluster.toNat * 512
    let cluster_to_use := fat16_get_cluster_for_offset p d cluster offset
    if cluster_to_use < 0 then (cluster_to_use, out) else
    let offset_from_cluster := offset.tmod size_of_cluster_bytes
    let starting_sector := fat16_cluster_to_sector p cluster_to_use
    let starting_pos := i32 (starting_sector * 512 + offset_from_cluster)
    let total_to_read := if total > size_of_cluster_bytes then size_of_cluster_bytes else total
    let (res, stream) := diskstreamer_seek diskstreamer_new starting_pos
    if res ≠ 0 then (res, out) else
    let (res, out', _) := read d stream out total_to_read
    if res ≠ 0 then (res, out') else
    if total - total_to_read > 0 then
      let k := total_to_read.toNat
      let (res, rest) := fat16_read_internal_from_stream read p d cluster fuel (i32 (offset + total_to_read))
        (total - total_to_read) (fun i => out' (i + k))
      (res, fun i => if i < k then out' i else rest (i - k))
    else (res, out')

/-- `fat16_read_loop`, over any way to read a piece. -/
def fat16_read_loop_from (read : Int → (Nat → UInt8) → Int × (Nat → UInt8)) (size : Nat) :
    Nat → Int → (Nat → UInt8) → Int × (Nat → UInt8)
  | 0, _, out => (0, out)
  | n + 1, offset, out =>
    let (res, out') := read offset out
    if res < 0 then (res, out') else
    let (res, rest) := fat16_read_loop_from read size n (i32 (offset + size)) (fun i => out' (i + size))
    (res, fun i => if i < size then out' i else rest (i - size))

/-- A stream that reads exactly the bytes of the disk. -/
def ideal_read (d : Disk) (stream : DiskStream) (out : Nat → UInt8) (total : Int) :
    Int × (Nat → UInt8) × DiskStream :=
  (0, fun i => if (i : Int) < total then cellAt d.sector (stream.pos.toNat + i) else out i,
    { stream with pos := stream.pos + total })

/-- `fat16_read_internal` over the ideal stream, with any fuel. -/
def fat16_read_ideal (p : FatPrivate) (d : Disk) (fuel first offset total : Nat) (out : Nat → UInt8) :
    Int × (Nat → UInt8) :=
  fat16_read_internal_from_stream ideal_read p d first fuel offset total out

/-- From some fuel on, the read succeeds with the bytes of the file. -/
def ReadsFile (p : FatPrivate) (d : Disk) (first : Nat) (l : List Nat) (offset total : Nat) : Prop :=
  ∃ n, ∀ fuel ≥ n, ∀ out, (fat16_read_ideal p d fuel first offset total out).1 = 0 ∧
    ∀ i < total, (fat16_read_ideal p d fuel first offset total out).2 i = chainByte p d l (offset + i)

/-- Byte `i` of a request is read from the cluster with number `i / size` after the first one, as far behind its
start as the request starts behind the start of the first one. -/
def pieceByte (p : FatPrivate) (d : Disk) (l : List Nat) (offset i : Nat) : UInt8 :=
  let size := fat16_cluster_size p
  cellAt d.sector ((clusterByte p (l.getD (offset / size + i / size) 0)).toNat + (offset % size + i % size))

/-- A piece that starts inside cluster `k` of the file runs over its end. There the disk has to go on with the bytes
of cluster `k + 1` of the file. -/
def Seamless (p : FatPrivate) (d : Disk) (l : List Nat) (offset total : Nat) : Prop :=
  let size := fat16_cluster_size p
  ∀ m, ∀ j < offset % size, m * size + (size - offset % size) + j < total →
    cellAt d.sector ((clusterByte p (l.getD (offset / size + m) 0)).toNat + size + j) =
      cellAt d.sector ((clusterByte p (l.getD (offset / size + m + 1) 0)).toNat + j)

end PeachOS
