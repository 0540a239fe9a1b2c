import PeachOS.Spec.Layout

/-!
# Runs of the driver

Calls of the public functions one after the other, and the disk when the machine stops in the middle
of a call. `fat16_close` only frees the descriptor, so a closed descriptor is one that is no longer
used.
-/

open PeachOS.Lib

namespace PeachOS

/-- The arguments of one call of `fat16_write`. -/
structure WriteCall where
  size : Nat
  nmemb : Nat
  buf : Nat → UInt8

/-- Calls of `fat16_write` through one descriptor, whatever they return. -/
def writeAll : List WriteCall → Volume → FatFileDescriptor → Volume × FatFileDescriptor
  | [], v, desc => (v, desc)
  | w :: ws, v, desc =>
    let res := fat16_write v desc w.size w.nmemb w.buf
    writeAll ws res.2.1 res.2.2

/-- What happens from one open to the next, with one descriptor at a time. -/
inductive Session
  | write (part : Nat → UInt8) (next : List (Nat → UInt8)) (kzalloc : FatMemory)
      (calls : List WriteCall)
  | read (part : Nat → UInt8) (next : List (Nat → UInt8)) (kzalloc : FatMemory)
  | delete (part : Nat → UInt8)

/-- `fat16_read` does not change the volume, so a reading session is its open. -/
def Session.run (v : Volume) : Session → Volume
  | .write part next kzalloc calls =>
    match fat16_open v part next .write kzalloc with
    | (v, .ok desc) => (writeAll calls v desc).1
    | (v, .error _) => v
  | .read part next kzalloc => (fat16_open v part next .read kzalloc).1
  | .delete part => (fat16_delete v part).2

/-- The disk when the machine stops after the first `n` sector writes of the call that led from `d`
to `d'`. -/
def crashAt (d d' : Disk) (n : Nat) : Nat → Sector :=
  applyWrites ((d'.writes.drop d.writes.length).take n) d.sector

end PeachOS
