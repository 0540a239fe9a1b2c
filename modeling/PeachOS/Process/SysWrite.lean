import PeachOS.Process.TaskCopies
import PeachOS.Fat.Accounting
import PeachOS.Fat.Content

/-!
# `sys_write`

The bytes of the caller go through two copies of a string before they are written. A string ends at its first zero, and
its last byte is a zero.
-/

open PeachOS.Lib PeachOS.Blocks PeachOS.Kernel

namespace PeachOS

namespace Memory

variable {k k' : Kernel} {task chunk dir : Nat} {table phys : Nat → Nat}

/-! ## The bytes that arrive -/

section Stored

variable {L : Layout} {s s' : Vfs} {fd : Int} {slot : Nat} {l : List Nat}

variable {user : Nat} (h : TaskDir k task dir table) (n : Nat) (h1 : 1 ≤ n) (hlt : n < 4096)
  (hb : OwnBuffer k task dir table user n phys)

include h h1 hlt hb

end Stored

end Memory

end PeachOS
