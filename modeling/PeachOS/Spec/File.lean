import PeachOS.Spec.Runs

/-!
# A file as a list of bytes

What a writer expects of a file: a list of bytes and a position. A write overwrites from the position
on and extends the list where it ends.
-/

open PeachOS.Lib

namespace PeachOS

structure ByteFile where
  bytes : List UInt8
  pos : Nat

/-- `xs` with `ys` put over it from index `pos` on. -/
def overwrite (xs : List UInt8) (pos : Nat) (ys : List UInt8) : List UInt8 :=
  xs.take pos ++ ys ++ xs.drop (pos + ys.length)

/-- What a program does with a file after it opened it for writing. -/
inductive FileOp
  | write (size nmemb : Nat) (buf : Nat → UInt8)
  | seek (offset : Nat)

/-- The bytes that a write takes from its buffer. -/
def bufferBytes (n : Nat) (buf : Nat → UInt8) : List UInt8 := (List.range n).map buf

namespace ByteFile

def empty : ByteFile := ⟨[], 0⟩

def step (f : ByteFile) : FileOp → ByteFile
  | .write size nmemb buf =>
    { bytes := overwrite f.bytes f.pos (bufferBytes (size * nmemb) buf), pos := f.pos + size * nmemb }
  | .seek offset => { f with pos := offset }

end ByteFile

/-- The driver's call for an operation, with its result. -/
def FileOp.call (v : Volume) (desc : FatFileDescriptor) : FileOp → Int × Volume × FatFileDescriptor
  | .write size nmemb buf => fat16_write v desc size nmemb buf
  | .seek offset => ((fat16_seek desc offset .set).1, v, (fat16_seek desc offset .set).2)

/-- A run of calls that all succeed: no call returns a negative value. -/
inductive Succeeds : List FileOp → Volume → FatFileDescriptor → Volume → FatFileDescriptor → Prop
  | nil (v : Volume) (desc : FatFileDescriptor) : Succeeds [] v desc v desc
  | cons (op : FileOp) (ops : List FileOp) (v : Volume) (desc : FatFileDescriptor) (r : Int)
      (v' : Volume) (desc' : FatFileDescriptor) (v'' : Volume) (desc'' : FatFileDescriptor) :
      op.call v desc = (r, v', desc') → 0 ≤ r → Succeeds ops v' desc' v'' desc'' →
      Succeeds (op :: ops) v desc v'' desc''

/-- The clusters that following the FAT from a first cluster gives. -/
def clustersOf (L : Layout) (fat : Nat → Nat) (first : Nat) : List Nat :=
  if first = 0 then [] else walk fat (fun c => decide (Eoc c)) L.clusters first

/-- Byte `q` of the data in the clusters `l`, one after the other. -/
def byteAt (L : Layout) (σ : View) (l : List Nat) (q : Nat) : UInt8 :=
  σ.data (l.getD (q / L.clusterSize) 0) (q % L.clusterSize)

/-- The content of the file in slot `i`, read off the disk: the chain from the entry's first cluster,
cut to the entry's size. -/
def fileBytes (L : Layout) (σ : View) (i : Nat) : List UInt8 :=
  (List.range (σ.dir i).filesize.toNat).map
    (byteAt L σ (clustersOf L σ.fat (fat16_get_first_cluster (σ.dir i))))

end PeachOS
