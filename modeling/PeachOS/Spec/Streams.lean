import PeachOS.Code.Disk
import PeachOS.Lib.Paged

/-!
# What a disk stream is for

A stream reads and writes a range of the bytes of the disk. The recursions of `streamer.c` are also given as
relations, with what each call does to its sector buffer. A run in such a relation is a recursion that has ended.
-/

open PeachOS.Lib

namespace PeachOS

/-! ## Reading -/

/-- The indexes of the sector buffer that one call reads. -/
def readIndexes (pos n : Int) : List Int := (List.range n.toNat).map fun (i : Nat) => pos.tmod 512 + i

/-- The calls of `diskstreamer_read` at a position, with the indexes of the buffers that they read. -/
inductive ReadRun : Int → Int → List Int → Prop
  | last (pos total : Int) (h : ¬ total > 512) : ReadRun pos total (readIndexes pos total)
  | next (pos total : Int) (l : List Int) (h : total > 512) (rest : ReadRun (i32 (pos + 512)) (total - 512) l) :
    ReadRun pos total (readIndexes pos 512 ++ l)

/-- The read succeeds with the bytes of the disk, stays in its buffer and moves the stream. -/
structure ReadsRange (d : Disk) (pos total : Nat) (out : Nat → UInt8) : Prop where
  succeeds : (diskstreamer_read d ⟨pos, 0⟩ out total).1 = 0
  bytes : ∀ i < total, (diskstreamer_read d ⟨pos, 0⟩ out total).2.1 i = cellAt d.sector (pos + i)
  moved : (diskstreamer_read d ⟨pos, 0⟩ out total).2.2.pos = (pos + total : Nat)
  inBuffer : ∃ l, ReadRun pos total l ∧ ∀ i ∈ l, 0 ≤ i ∧ i < 512
  /-- More fuel than there are calls makes no difference. -/
  ends : ∃ n, ∀ fuel ≥ n, diskstreamer_read_rec d fuel ⟨pos, 0⟩ out total = diskstreamer_read d ⟨pos, 0⟩ out total

/-! ## Writing -/

/-- A `memcpy` of `len` bytes from input index `first` to buffer index `offset`. -/
structure SectorCopy where
  offset : Int
  first : Nat
  len : Nat

/-- The bytes that are left in the sector of a position. -/
def sectorRoom (pos : Int) : Nat := (512 - pos.tmod 512).toNat

/-- The calls of `diskstreamer_write` at a position, with their copies. -/
inductive WriteRun : Int → Nat → Nat → List SectorCopy → Prop
  | last (pos : Int) (total first : Nat) (h : ¬ total > sectorRoom pos) :
    WriteRun pos total first [⟨pos.tmod 512, first, total⟩]
  | next (pos : Int) (total first : Nat) (l : List SectorCopy) (h : total > sectorRoom pos)
    (rest : WriteRun (i32 (pos + sectorRoom pos)) (total - sectorRoom pos) (first + sectorRoom pos) l) :
    WriteRun pos total first (⟨pos.tmod 512, first, sectorRoom pos⟩ :: l)

/-- A copy stays in the sector buffer and in the input. -/
def SectorCopy.InBounds (c : SectorCopy) (total : Nat) : Prop :=
  0 ≤ c.offset ∧ c.offset + c.len ≤ 512 ∧ c.first + c.len ≤ total

/-- The write succeeds, puts the input on the disk and changes nothing else. -/
structure WritesRange (d : Disk) (pos total : Nat) (inp : Nat → UInt8) : Prop where
  succeeds : (diskstreamer_write d ⟨pos, 0⟩ inp total).1 = 0
  inside : ∀ a, pos ≤ a → a < pos + total →
    cellAt (diskstreamer_write d ⟨pos, 0⟩ inp total).2.1.sector a = inp (a - pos)
  outside : ∀ a, ¬ (pos ≤ a ∧ a < pos + total) →
    cellAt (diskstreamer_write d ⟨pos, 0⟩ inp total).2.1.sector a = cellAt d.sector a
  moved : (diskstreamer_write d ⟨pos, 0⟩ inp total).2.2.pos = (pos + total : Nat)
  inBounds : ∃ l, WriteRun pos total 0 l ∧ ∀ c ∈ l, c.InBounds total
  ends : ∃ n, ∀ fuel ≥ n, diskstreamer_write_rec fuel d ⟨pos, 0⟩ inp total = diskstreamer_write d ⟨pos, 0⟩ inp total

end PeachOS
