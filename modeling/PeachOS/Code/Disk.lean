import PeachOS.Code.Machine

/-!
# The disk and its streams, from `disk.c` and `streamer.c`

The ATA disk is an array of 512-byte sectors. `disk_write_block` also appends to `writes`, so that
a proof can speak about the sector writes of a call one by one.
-/

namespace PeachOS

abbrev Sector := Fin 512 → UInt8

/-- Named, so that the index `0` of a sector is the same term in every module. -/
instance neZero_sector : NeZero 512 := ⟨by decide⟩

structure Disk where
  sector : Nat → Sector
  /-- The sector writes so far, the latest last. -/
  writes : List (Nat × Sector)
  /-- What the kernel stack holds around the sector buffer of `diskstreamer_read`. -/
  stack : Int → UInt8

/-- `struct disk*`. The kernel has one disk, `&disk`, with index 0. -/
structure DiskStream where
  pos : Int
  disk : Nat

def disk_read_block (d : Disk) (idisk lba : Nat) : Int × Sector :=
  if idisk ≠ 0 then (- EIO, fun _ => 0)
  else (0, d.sector lba)

def disk_write_block (d : Disk) (idisk lba : Nat) (buf : Sector) : Int × Disk :=
  if idisk ≠ 0 then (- EIO, d)
  else (0, { d with
    sector := fun i => if i = lba then buf else d.sector i
    writes := d.writes ++ [(lba, buf)] })

/-- A stream on `&disk`. Every function seeks before it uses a stream, so the position a stream
was left at by an earlier call is never read. -/
def diskstreamer_new : DiskStream := { pos := 0, disk := 0 }

def diskstreamer_seek (stream : DiskStream) (pos : Int) : Int × DiskStream :=
  (0, { stream with pos := pos })

/-- `buf[i]` for the local sector buffer, in bounds or not. -/
def Disk.bufAt (d : Disk) (buf : Sector) (i : Int) : UInt8 :=
  if h : 0 ≤ i ∧ i < 512 then buf ⟨i.toNat, by omega⟩ else d.stack i

/-- The recursion of `diskstreamer_read`. Each call but the last reads 512 bytes. -/
def diskstreamer_read_rec (d : Disk) :
    Nat → DiskStream → (Nat → UInt8) → Int → Int × (Nat → UInt8) × DiskStream
  | 0, stream, out, _ => (0, out, stream)
  | fuel + 1, stream, out, total =>
    let sector := stream.pos.tdiv 512
    let offset := stream.pos.tmod 512
    let (res, buf) := disk_read_block d stream.disk (u32 sector)
    if res < 0 then (res, out, stream) else
    let total_to_read := if total > 512 then 512 else total
    let out' := fun (i : Nat) => if (i : Int) < total_to_read then d.bufAt buf (offset + i) else out i
    let stream := { stream with pos := i32 (stream.pos + total_to_read) }
    if total > 512 then
      let (res, rest, stream) :=
        diskstreamer_read_rec d fuel stream (fun i => out (i + 512)) (total - 512)
      (res, fun i => if i < 512 then out' i else rest (i - 512), stream)
    else (res, out', stream)

/-- Reads `total` bytes at the stream position into `out`. -/
def diskstreamer_read (d : Disk) (stream : DiskStream) (out : Nat → UInt8) (total : Int) :
    Int × (Nat → UInt8) × DiskStream :=
  diskstreamer_read_rec d (total.toNat / 512 + 1) stream out total

/-- `memcpy(buf + offset, in, n)` on the local sector buffer. -/
def Sector.copy (buf : Sector) (offset : Int) (inp : Nat → UInt8) (n : Nat) : Sector :=
  fun j => if offset ≤ (j : Nat) ∧ ((j : Nat) : Int) < offset + n then inp ((j : Nat) - offset).toNat
    else buf j

/-- The recursion of `diskstreamer_write`: one sector at a time, read, changed and written back. -/
def diskstreamer_write_rec :
    Nat → Disk → DiskStream → (Nat → UInt8) → Nat → Int × Disk × DiskStream
  | 0, d, stream, _, _ => (0, d, stream)
  | fuel + 1, d, stream, inp, total =>
    let sector := stream.pos.tdiv 512
    let offset := stream.pos.tmod 512
    let (res, buf) := disk_read_block d stream.disk (u32 sector)
    if res < 0 then (res, d, stream) else
    let room := (512 - offset).toNat
    let total_to_write := if total > room then room else total
    let (res, d) := disk_write_block d stream.disk (u32 sector) (buf.copy offset inp total_to_write)
    if res < 0 then (res, d, stream) else
    let stream := { stream with pos := i32 (stream.pos + total_to_write) }
    if total > total_to_write then
      diskstreamer_write_rec fuel d stream (fun i => inp (i + total_to_write)) (total - total_to_write)
    else (res, d, stream)

/-- Writes `total` bytes of `inp` at the stream position. -/
def diskstreamer_write (d : Disk) (stream : DiskStream) (inp : Nat → UInt8) (total : Nat) :
    Int × Disk × DiskStream :=
  diskstreamer_write_rec (total + 1) d stream inp total

end PeachOS
