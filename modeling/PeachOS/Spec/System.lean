import PeachOS.Spec.Layout
import PeachOS.Lib.Run

/-!
# The driver with many open descriptors

Descriptors get numbers in the order of their opens. Each slot of the root directory has a generation,
which a specification needs and the code does not have: it says which file of those that had the slot
one after the other is there now.
-/

namespace PeachOS

/-- A descriptor, with the generation that its slot had when it was opened. -/
structure OpenFile where
  desc : FatFileDescriptor
  born : Nat

structure Sys where
  vol : Volume
  files : List (Option OpenFile)
  gen : Nat → Nat

inductive Call
  | open_ (part : Nat → UInt8) (next : List (Nat → UInt8)) (kzalloc : FatMemory)
  | write (fd size nmemb : Nat) (buf : Nat → UInt8)
  | close (fd : Nat)
  | delete (part : Nat → UInt8)

namespace Sys

def file (s : Sys) (fd : Nat) : Option OpenFile := (s.files[fd]?).join

/-- The slot has a new file, or none. -/
def bump (s : Sys) (slot : Int) : Nat → Nat :=
  fun j => if (j : Int) = slot then s.gen j + 1 else s.gen j

/-- The generations after a write-mode open: a name that is not found gets a free slot. -/
def genOpen (s : Sys) (part : Nat → UInt8) : Nat → Nat :=
  if fat16_find_root_dir_slot_by_name s.vol.priv part ≥ 0 then s.gen
  else s.bump (fat16_find_free_root_dir_slot s.vol.priv)

def step (s : Sys) : Call → Sys
  | .open_ part next kzalloc =>
    let res := fat16_open s.vol part next .write kzalloc
    let gen := s.genOpen part
    match res.2 with
    | .ok desc =>
      { vol := res.1, files := s.files ++ [some ⟨desc, gen desc.root_dir_slot.toNat⟩], gen := gen }
    | .error _ => { vol := res.1, files := s.files, gen := gen }
  | .write fd size nmemb buf =>
    match s.file fd with
    | some f =>
      let res := fat16_write s.vol f.desc size nmemb buf
      { s with vol := res.2.1, files := s.files.set fd (some { f with desc := res.2.2 }) }
    | none => s
  | .close fd => { s with files := s.files.set fd none }
  | .delete part =>
    { s with
      vol := (fat16_delete s.vol part).2
      gen := s.bump (fat16_find_root_dir_slot_by_name s.vol.priv part) }

/-- A mounted volume with no descriptor open. -/
def start (v : Volume) : Sys := { vol := v, files := [], gen := fun _ => 0 }

end Sys

end PeachOS
