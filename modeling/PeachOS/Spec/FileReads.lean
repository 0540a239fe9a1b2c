import PeachOS.Spec.Reading
import PeachOS.Code.File

/-!
# What a read hands out

The kernel reads a file for a user process byte by byte. Every byte is looked for on its own.
-/

namespace PeachOS

/-- The byte at a position of the disk, as a read of one byte finds it. -/
def diskByte (d : Disk) (pos : Int) : UInt8 := d.bufAt (d.sector (u32 (pos.tdiv 512))) (pos.tmod 512)

/-- What a read from byte `q` on gets for its byte `i`, if it stops at the first byte that is not there. -/
def seen (found : Nat → Option UInt8) (q i : Nat) : Option UInt8 :=
  if ∀ j ≤ i, found (q + j) ≠ none then found (q + i) else none

section Bytes

variable (v : Volume) (item : FatDirectoryItem)

/-- The cluster that the reader comes to for byte `q` of a file, or an error. -/
def reach (q : Nat) : Int :=
  fat16_get_cluster_for_offset v.priv v.disk (i32 (fat16_get_first_cluster item)) (i32 q)

/-- Where the reader looks for byte `q`. -/
def place (q : Nat) : Int :=
  i32 (fat16_cluster_to_sector v.priv (reach v item q) * 512 + (i32 q).tmod (fat16_cluster_size v.priv))

/-- What the reader finds for byte `q`. -/
def shown (q : Nat) : Option UInt8 :=
  if reach v item q < 0 then none else some (diskByte v.disk (place v item q))

/-- Byte `q` of a file of the given size in the given clusters. -/
def fileByte (l : List Nat) (q : Nat) : Option UInt8 :=
  if q < item.filesize.toNat ∧ q < l.length * fat16_cluster_size v.priv then some (chainByte v.priv v.disk l q)
  else none

end Bytes

/-- The file of a descriptor. -/
def Vfs.priv (s : Vfs) (fd : Int) : FatFileDescriptor := (s.descriptor (s.file_get_descriptor fd)).priv

/-- A read of the whole file in one piece and one byte after the other. -/
structure ReadsWhole (v : Volume) (desc : FatFileDescriptor) (l : List Nat) : Prop where
  bulk : ∀ out, fat16_read v desc desc.item.item.filesize.toNat 1 out =
    (1, fun i => (fileByte v desc.item.item l i).getD (out i))
  bytewise : ∀ out, fat16_read v desc 1 desc.item.item.filesize.toNat out =
    ((desc.item.item.filesize.toNat : Int), fun i => (fileByte v desc.item.item l i).getD (out i))

/-- The memory after a read of `n` bytes and a read of `m` bytes behind them. `fread` does not change the
descriptor. -/
def Vfs.freadTwice (s : Vfs) (ptr : Nat → UInt8) (n m : Nat) (fd : Int) : Nat → UInt8 :=
  let buf1 := (s.fread ptr 1 n fd).2
  let buf2 := (s.fread (fun i => buf1 (i + n)) 1 m fd).2
  fun i => if i < n then buf1 i else buf2 (i - n)

/-- The second read goes on where the first one stopped. -/
def Vfs.Continues (s : Vfs) (n m : Nat) (fd : Int) : Prop :=
  ∀ ptr, s.freadTwice ptr n m fd = (s.fread ptr 1 (n + m) fd).2

/-- The result counts bytes of the file, and every byte that is stored is the byte of the file at its place. -/
structure Vfs.StopsAtEnd (s : Vfs) (l : List Nat) (n : Nat) (fd : Int) : Prop where
  result : ∀ ptr, (s.fread ptr 1 n fd).1 ≤ (((s.priv fd).item.item.filesize.toNat - (s.priv fd).pos : Nat) : Int)
  stores : ∀ ptr i, (s.fread ptr 1 n fd).2 i ≠ ptr i →
    (0 ≤ (s.fread ptr 1 n fd).1 → (i : Int) < (s.fread ptr 1 n fd).1) ∧
    fileByte s.vol (s.priv fd).item.item l ((s.priv fd).pos + i) = some ((s.fread ptr 1 n fd).2 i)

end PeachOS
