import PeachOS.Code.Machine

/-!
# Segment descriptors, from `gdt.c`

The table is in memory, and an entry is the 8 bytes of a packed `struct gdt`.
-/

namespace PeachOS

/-- `sizeof(struct gdt)`. -/
def sizeof_gdt : Nat := 8

structure GdtStructured where
  base : UInt32
  limit : UInt32
  type : UInt8
deriving DecidableEq

/-- One byte is written. -/
def store8 (mem : Nat → UInt8) (a : Nat) (b : UInt8) : Nat → UInt8 := fun x => if x = a then b else mem x

/-- `panic` does not return. -/
def encodeGdtEntry (mem : Nat → UInt8) (target : Nat) (source : GdtStructured) : Option (Nat → UInt8) :=
  if source.limit > 65536 ∧ source.limit &&& 0xFFF ≠ 0xFFF then none else
  let mem := store8 mem (target + 6) 0x40
  let res := if source.limit > 65536 then (source.limit >>> 12, store8 mem (target + 6) 0xC0)
    else (source.limit, mem)
  let limit := res.1
  let mem := res.2
  let mem := store8 mem target (limit &&& 0xFF).toUInt8
  let mem := store8 mem (target + 1) (limit >>> 8 &&& 0xFF).toUInt8
  let mem := store8 mem (target + 6) (mem (target + 6) ||| (limit >>> 16 &&& 0x0F).toUInt8)
  let mem := store8 mem (target + 2) (source.base &&& 0xFF).toUInt8
  let mem := store8 mem (target + 3) (source.base >>> 8 &&& 0xFF).toUInt8
  let mem := store8 mem (target + 4) (source.base >>> 16 &&& 0xFF).toUInt8
  let mem := store8 mem (target + 7) (source.base >>> 24 &&& 0xFF).toUInt8
  some (store8 mem (target + 5) source.type)

/-- The loop at entry `i`, with `n` entries left. -/
def gdt_structured_to_gdt_loop (gdt : Nat) (structured_gdt : Nat → GdtStructured) :
    Nat → Nat → (Nat → UInt8) → Option (Nat → UInt8)
  | 0, _, mem => some mem
  | n + 1, i, mem =>
    match encodeGdtEntry mem (gdt + sizeof_gdt * i) (structured_gdt i) with
    | none => none
    | some mem => gdt_structured_to_gdt_loop gdt structured_gdt n (i + 1) mem

def gdt_structured_to_gdt (mem : Nat → UInt8) (gdt : Nat) (structured_gdt : Nat → GdtStructured) (total_entires : Int) :
    Option (Nat → UInt8) :=
  gdt_structured_to_gdt_loop gdt structured_gdt total_entires.toNat 0 mem

/-! ## The table of the kernel, from `kernel.c` -/

def PEACHOS_TOTAL_GDT_SEGMENTS : Nat := 6

/-- `sizeof(struct tss)`. -/
def sizeof_tss : UInt32 := 100

/-- `tss` is the address of the task state segment. -/
def gdt_structured (tss : UInt32) : Nat → GdtStructured
  | 1 => ⟨0x00, 0xffffffff, 0x9a⟩
  | 2 => ⟨0x00, 0xffffffff, 0x92⟩
  | 3 => ⟨0x00, 0xffffffff, 0xf8⟩
  | 4 => ⟨0x00, 0xffffffff, 0xf2⟩
  | 5 => ⟨tss, sizeof_tss, 0xE9⟩
  | _ => ⟨0x00, 0x00, 0x00⟩

end PeachOS
