import PeachOS.Code.File
import PeachOS.Lib.Run

/-!
# Calls on an open file

A program reads, seeks and writes through one descriptor, in any order and with any arguments.
-/

open PeachOS.Lib

namespace PeachOS

inductive FileCall
  | read (size nmemb : UInt32)
  | seek (offset : UInt32) (mode : SeekMode)
  | write (size nmemb : UInt32) (buf : Nat → UInt8)

structure FileSession where
  vol : Volume
  desc : FatFileDescriptor

namespace FileSession

def size (s : FileSession) : Nat := s.desc.item.item.filesize.toNat

/-- `fat16_read` changes neither the volume nor the descriptor. -/
def step (s : FileSession) : FileCall → FileSession
  | .read _ _ => s
  | .seek offset mode => { s with desc := (fat16_seek s.desc offset.toNat mode).2 }
  | .write size nmemb buf =>
    let r := fat16_write s.vol s.desc size.toNat nmemb.toNat buf
    { vol := r.2.1, desc := r.2.2 }

/-- What a call does to the position. -/
structure KeepsPosition (s : FileSession) (c : FileCall) : Prop where
  inside : (s.step c).desc.pos ≤ (s.step c).size
  failed : ∀ offset mode, c = .seek offset mode → (fat16_seek s.desc offset.toNat mode).1 ≠ 0 →
    (s.step c).desc.pos = s.desc.pos
  unwrapped : ∀ offset, c = .seek offset .cur → (fat16_seek s.desc offset.toNat .cur).1 = 0 →
    s.desc.pos + offset.toNat < 2 ^ 32

/-- A relative seek that is accepted ends inside the file. -/
def SeeksInside (s : FileSession) : FileCall → Prop
  | .seek offset .cur => s.desc.item.type = .file → offset.toNat < s.size → s.desc.pos + offset.toNat ≤ s.size
  | _ => True

end FileSession

end PeachOS
