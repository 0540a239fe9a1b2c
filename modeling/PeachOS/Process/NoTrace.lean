import PeachOS.Process.ForkExit
import PeachOS.Process.Records

/-!
# Processes that could not be created

The first block of the record is in use from its allocation on, and no failure gives it back. So a call that fails later
leaves a trace. Besides, an error that `task_new` returns as a pointer is taken for a task.
-/

open PeachOS.Lib PeachOS.Blocks PeachOS.Kernel PeachOS.Records

namespace PeachOS.Memory

variable {k k1 k2 k3 : Kernel} {r s n : Nat}

/-! ## Blocks in use -/

end PeachOS.Memory
