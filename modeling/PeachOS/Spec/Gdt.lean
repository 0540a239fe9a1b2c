import PeachOS.Code.Gdt

/-!
# How the processor reads a segment descriptor

The base is in bytes 2, 3, 4 and 7. The limit has 20 bits in bytes 0 and 1 and the low half of byte 6, whose highest bit
says that it counts pages. The access byte is byte 5.
-/

namespace PeachOS

def descriptorBase (e : Nat → UInt8) : Nat := le32 fun i => if i = 3 then e 7 else e (2 + i)

def descriptorLimit (e : Nat → UInt8) : Nat :=
  let limit := le16 e + 65536 * (e 6 &&& 0x0F).toNat
  if e 6 &&& 0x80 ≠ 0 then limit <<< 12 ||| 0xFFF else limit

def decodeGdtEntry (e : Nat → UInt8) : GdtStructured :=
  ⟨UInt32.ofNat (descriptorBase e), UInt32.ofNat (descriptorLimit e), e 5⟩

/-- A limit of more than 65536 that is not the last byte of a page. -/
def GdtStructured.Rejected (source : GdtStructured) : Prop := 65536 < source.limit ∧ source.limit &&& 0xFFF ≠ 0xFFF

instance (source : GdtStructured) : Decidable source.Rejected := inferInstanceAs (Decidable (_ ∧ _))

/-- The entry at `target` is read back as `source`, and no other byte of memory has changed. -/
structure EncodedAt (mem mem' : Nat → UInt8) (target : Nat) (source : GdtStructured) : Prop where
  decoded : decodeGdtEntry (fun i => mem' (target + i)) = source
  others : ∀ x, ¬ (target ≤ x ∧ x < target + sizeof_gdt) → mem' x = mem x

end PeachOS
