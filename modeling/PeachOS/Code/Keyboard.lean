import PeachOS.Code.Machine

/-!
# The key buffer of a process, from `keyboard.c`

Every `struct process` has a buffer of 1024 characters and two counters. The counters are reduced only when
they are used as an index.
-/

namespace PeachOS

def PEACHOS_KEYBOARD_BUFFER_SIZE : Nat := 1024

structure KeyboardBuffer where
  buffer : Nat → UInt8
  tail : Int
  head : Int

/-- After `process_init`. -/
def KeyboardBuffer.zero : KeyboardBuffer := ⟨fun _ => 0, 0, 0⟩

/-- `sizeof` is unsigned, so the counter is converted to `uint32_t`. -/
def keyboard_get_tail_index (process : KeyboardBuffer) : Nat :=
  u32 process.tail % PEACHOS_KEYBOARD_BUFFER_SIZE

/-- The key buffers of the processes, each at the address of its process. -/
abbrev Keyboards := Nat → KeyboardBuffer

/-- `process` is `process_current()`. -/
def keyboard_push (keyboards : Keyboards) (process : Nat) (c : UInt8) : Keyboards :=
  if process = 0 then keyboards else
  let keyboard := keyboards process
  let real_index := keyboard_get_tail_index keyboard
  let keyboard : KeyboardBuffer := { keyboard with
    buffer := fun i => if i = real_index then c else keyboard.buffer i
    tail := i32 (keyboard.tail + 1) }
  fun p => if p = process then keyboard else keyboards p

/-- `process` is `task_current()->process`, and 0 if there is no current task. -/
def keyboard_pop (keyboards : Keyboards) (process : Nat) : UInt8 × Keyboards :=
  if process = 0 then (0, keyboards) else
  let keyboard := keyboards process
  let real_index := u32 keyboard.head % PEACHOS_KEYBOARD_BUFFER_SIZE
  let c := keyboard.buffer real_index
  if c = 0 then (0, keyboards) else
  let keyboard : KeyboardBuffer := { keyboard with
    buffer := fun i => if i = real_index then 0 else keyboard.buffer i
    head := i32 (keyboard.head + 1) }
  (c, fun p => if p = process then keyboard else keyboards p)

end PeachOS
