import PeachOS.Code.Shell
import PeachOS.Lib.AsmRules

/-!
# What the shell does

A shell that makes one system call after the other, and goes on with the kernel's reply. `Point` is where it is: at the
call that `Point.request` gives, with what it still has to know. `Point.reply` is the rest of the shell.
-/

open PeachOS.Lib.Asm

namespace PeachOS.Shell

/-- A system call, with the texts and bytes that the kernel takes from the caller's memory. -/
inductive Request
  | print (text : List UInt8)
  | open_ (path : List UInt8) (mode : Nat)
  | read (fd count : Nat)
  | fork
  | exit
  | readline (max : Nat)
  | write (fd count : Nat) (data : List UInt8)
  | delete (path : List UInt8)
  | close (fd : Nat)
  | readdir (index size : Nat)
  | wait (pid : Nat)
deriving DecidableEq

namespace Request

/-- The calls that work with files. -/
def onFiles : Request → Bool
  | open_ _ _ | read _ _ | write _ _ _ | delete _ | close _ | readdir _ _ => true
  | _ => false

/-- The calls that work with children. -/
def onChildren : Request → Bool
  | fork | wait _ => true
  | _ => false

/-- The descriptor that a call is about. -/
def descriptor : Request → Option Nat
  | read fd _ | write fd _ _ | close fd => some fd
  | _ => none

/-- The mode in which a call needs its file. -/
def needs : Request → Option Nat
  | read _ _ => some FILE_MODE_READ
  | write _ _ _ => some FILE_MODE_WRITE
  | _ => none

end Request

/-- The value that the call returns, and the caller's memory from its buffer on. -/
structure Reply where
  eax : Nat
  data : Nat → UInt8

/-- The characters up to the NUL, and at most `max`. -/
def cut (max : Nat) (s : Nat → UInt8) : List UInt8 := ((List.range max).map s).takeWhile (· ≠ 0)

/-- The path that a command's argument stands for. -/
def pathFor (arg : List UInt8) : List UInt8 :=
  ascii "0:/" ++ (arg.takeWhile fun c => c ≠ 10 ∧ c ≠ 13).take 124

/-- Digits, the last one first. -/
def digits : Nat → Nat → List UInt8
  | 0, _ => []
  | fuel + 1, n => if n = 0 then [] else UInt8.ofNat (48 + n % 10) :: digits fuel (n / 10)

def decimal (n : Nat) : List UInt8 := if n = 0 then [48] else (digits n n).reverse

inductive Point
  | welcome
  | prompt
  | command
  | goodbye
  | fork (line : List UInt8)
  -- the parent of a child `pid`
  | forked (pid : Nat)
  | pid (pid : Nat)
  | pidEnd (pid : Nat)
  | wait (pid : Nat)
  | resume
  -- the child, for `ls`
  | listing
  | entry (index : Nat)
  | indent (index : Nat) (name : List UInt8)
  | name (index : Nat) (name : List UInt8)
  | nameEnd (index : Nat)
  -- for `cat`
  | openRead (path : List UInt8)
  | content (fd : Nat)
  | contentText (fd : Nat) (text : List UInt8)
  | contentEnd (fd : Nat)
  | closeRead (fd : Nat)
  | readError
  -- for `write`
  | ask (path : List UInt8)
  | input (path : List UInt8)
  | openWrite (path : List UInt8) (count : Nat) (data : Nat → UInt8)
  | store (path : List UInt8) (fd count : Nat) (data : Nat → UInt8)
  | closeWrite (path : List UInt8) (fd result : Nat)
  | written (path : List UInt8)
  | writtenPath (path : List UInt8)
  | writtenEnd
  | writeError
  -- for `del`
  | delete (path : List UInt8)
  | deleted (path : List UInt8)
  | deletedPath (path : List UInt8)
  | deletedEnd
  | deleteError
  -- for everything else
  | unknown
  | exit

namespace Point

/-- The kernel takes `count` bytes of a buffer, if it does not refuse the count. -/
def request : Point → Request
  | welcome => .print (Text.chars .msg_welcome)
  | prompt => .print (Text.chars .msg_prompt)
  | command => .readline 63
  | goodbye => .print (Text.chars .msg_exit)
  | fork _ => .fork
  | forked _ => .print (Text.chars Text.msg_fork_prefix)
  | pid n => .print (decimal n)
  | pidEnd _ => .print (Text.chars .msg_newline)
  | wait n => .wait n
  | resume => .print (Text.chars .msg_parent_resume)
  | listing => .print (Text.chars .msg_ls_header)
  | entry index => .readdir index 64
  | indent _ _ => .print (Text.chars .msg_ls_indent)
  | name _ s => .print s
  | nameEnd _ => .print (Text.chars .msg_newline)
  | openRead path => .open_ path FILE_MODE_READ
  | content fd => .read fd 63
  | contentText _ text => .print text
  | contentEnd _ => .print (Text.chars .msg_newline)
  | closeRead fd => .close fd
  | readError => .print (Text.chars .msg_err_read)
  | ask _ => .print (Text.chars .msg_write_prompt)
  | input _ => .readline 511
  | openWrite path _ _ => .open_ path FILE_MODE_WRITE
  | store _ fd count data => .write fd count (if count < 4096 then (List.range count).map data else [])
  | closeWrite _ fd _ => .close fd
  | written _ => .print (Text.chars .msg_write_ok)
  | writtenPath path => .print path
  | writtenEnd => .print (Text.chars .msg_newline)
  | writeError => .print (Text.chars .msg_err_write)
  | delete path => .delete path
  | deleted _ => .print (Text.chars .msg_del_ok)
  | deletedPath path => .print path
  | deletedEnd => .print (Text.chars .msg_newline)
  | deleteError => .print (Text.chars .msg_err_del)
  | unknown => .print (Text.chars .msg_unknown)
  | exit => .exit

/-- What the child does with a command line. -/
def child (line : List UInt8) : Point :=
  if Text.chars .cmd_ls <+: line then listing
  else if Text.chars .cmd_cat <+: line then openRead (pathFor (line.drop 4))
  else if Text.chars .cmd_write <+: line then ask (pathFor (line.drop 6))
  else if Text.chars .cmd_del <+: line then delete (pathFor (line.drop 4))
  else unknown

/-- `exit` has no reply. -/
def reply (r : Reply) : Point → Point
  | welcome => prompt
  | prompt => command
  | command =>
    if r.eax = 0 ∨ neg32 r.eax then command
    else if Text.chars .cmd_exit <+: cut 63 r.data ∨ Text.chars .cmd_quit <+: cut 63 r.data then goodbye
    else fork (cut 63 r.data)
  | goodbye => exit
  | fork line => if neg32 r.eax then prompt else if r.eax ≠ 0 then forked r.eax else child line
  | forked n => pid n
  | pid n => pidEnd n
  | pidEnd n => wait n
  | wait n => if r.eax ≠ 0 then wait n else resume
  | resume => prompt
  | listing => entry 0
  | entry index => if r.eax = 1 then indent index (cut 1023 r.data) else exit
  | indent index s => name index s
  | name index _ => nameEnd index
  | nameEnd index => entry ((index + 1) % 2 ^ 32)
  | openRead _ => if r.eax = 0 then readError else content r.eax
  | content fd => if r.eax = 0 ∨ neg32 r.eax then readError else contentText fd (cut 1023 r.data)
  | contentText fd _ => contentEnd fd
  | contentEnd fd => closeRead fd
  | closeRead _ => exit
  | readError => exit
  | ask path => input path
  | input path => openWrite path r.eax r.data
  | openWrite path count data => if r.eax = 0 then writeError else store path r.eax count data
  | store path fd _ _ => closeWrite path fd r.eax
  | closeWrite path _ result => if neg32 result then writeError else written path
  | written path => writtenPath path
  | writtenPath _ => writtenEnd
  | writtenEnd => exit
  | writeError => exit
  | delete path => if neg32 r.eax then deleteError else deleted path
  | deleted path => deletedPath path
  | deletedPath _ => deletedEnd
  | deletedEnd => exit
  | deleteError => exit
  | unknown => exit
  | exit => exit

end Point

/-- What the shell has asked, with the replies, and the point that it has come to. -/
inductive Transcript : List (Request × Reply) → Point → Prop
  | start : Transcript [] .welcome
  | call (l : List (Request × Reply)) (p : Point) (r : Reply) :
      Transcript l p → p ≠ .exit → Transcript (l ++ [(p.request, r)]) (p.reply r)

/-! ## What a transcript can be -/

/-- Only calls of a process that has never been a child. -/
def ParentOnly (l : List (Request × Reply)) : Prop :=
  ∀ x ∈ l, x.1.onFiles = false ∧ (x.1 = .fork → x.2.eax ≠ 0)

/-- A parent up to a `fork` that returned 0, and from there on a process that neither forks nor waits. -/
def ChildAfter (l : List (Request × Reply)) : Prop :=
  ∃ l₁ r l₂, l = l₁ ++ (.fork, r) :: l₂ ∧ r.eax = 0 ∧ ParentOnly l₁ ∧ ∀ x ∈ l₂, x.1.onChildren = false

/-- The `fork` at place `i` made the child `n`, and no `wait` for it has returned 0 yet. -/
def Unwaited (l : List (Request × Reply)) (i n : Nat) : Prop :=
  (∃ r, l[i]? = some (.fork, r) ∧ r.eax = n) ∧ n ≠ 0 ∧ neg32 n = false ∧
    ∀ j r, i < j → l[j]? = some (.wait n, r) → r.eax ≠ 0

/-- The call `q` is about a descriptor that an `open` before it returned, in the mode that it needs. -/
def Descends (l : List (Request × Reply)) (q : Request) : Prop :=
  ∀ fd, q.descriptor = some fd → fd ≠ 0 ∧
    ∃ path mode r, (.open_ path mode, r) ∈ l ∧ r.eax = fd ∧ ∀ n, q.needs = some n → n = mode

/-- The descriptors that are open after a call, if those in `h` were open before. -/
def heldAfter (h : List Nat) (x : Request × Reply) : List Nat :=
  match x.1 with
  | .open_ _ _ => if x.2.eax = 0 then h else x.2.eax :: h
  | .close fd => h.erase fd
  | _ => h

def held (l : List (Request × Reply)) : List Nat := l.foldl heldAfter []

/-- A `read` has returned no bytes, or an error. -/
def ReadFailed (l : List (Request × Reply)) : Prop :=
  ∃ fd n r, (.read fd n, r) ∈ l ∧ (r.eax = 0 ∨ neg32 r.eax = true)

/-! ## System calls of the program -/

/-- `task_get_stack_item(task_current(), i)`. -/
def arg (s : Core) (i : Nat) : Nat := load32 s.mem (s.reg .esp + 4 * i)

/-- The call at an `int 0x80`, with what its handler reads. The lengths of the texts are those of the handlers'
buffers. -/
def requestOf (s : Core) : Option Request :=
  match s.reg .eax with
  | 1 => some (.print (cut 1023 fun i => s.mem (arg s 0 + i)))
  | 2 => some (.open_ (cut 107 fun i => s.mem (arg s 0 + i)) (arg s 1))
  | 3 => some (.read (arg s 0) (arg s 2))
  | 4 => some .fork
  | 5 => some .exit
  | 6 => some (.readline (arg s 1))
  | 7 => some (.write (arg s 0) (arg s 2)
      (if arg s 2 < 4096 then (List.range (arg s 2)).map fun i => s.mem (arg s 1 + i) else []))
  | 8 => some (.delete (cut 107 fun i => s.mem (arg s 0 + i)))
  | 9 => some (.close (arg s 0))
  | 10 => some (.readdir (arg s 0) (arg s 2))
  | 11 => some (.wait (arg s 0))
  | _ => none

/-- The address and the size of the buffer that the call hands out. -/
def bufferOf (s : Core) : Nat × Nat :=
  match s.reg .eax with
  | 3 => (arg s 1, arg s 2)
  | 6 => (arg s 0, arg s 1)
  | 10 => (arg s 1, arg s 2)
  | _ => (0, 0)

/-- The kernel has answered the call at `s`. It keeps the stack pointer and all memory outside of the buffer, and no
other register. A line that was read fits the buffer, or the call has failed. -/
structure Answers (s : Core) (r : Reply) (t : Core) : Prop where
  pc : t.pc = s.pc + 1
  esp : t.reg .esp = s.reg .esp
  eax : t.reg .eax = r.eax
  word : r.eax < 2 ^ 32
  mem : ∀ x, ¬ ((bufferOf s).1 ≤ x ∧ x < (bufferOf s).1 + (bufferOf s).2) → t.mem x = s.mem x
  data : ∀ i, r.data i = t.mem ((bufferOf s).1 + i)
  fits : s.reg .eax = SYS_READLINE → r.eax < arg s 1 ∨ neg32 r.eax

/-- The processor stands at a system call, and its request is `q`. -/
structure Calls (P : Program Label) (s : Core) (q : Request) : Prop where
  int : P.step s = .int 0x80 (s.goto (s.pc + 1))
  request : requestOf s = some q

/-- The program has made the calls of the list one after the other, and was answered. -/
inductive Session (P : Program Label) (s : Core) : List (Request × Reply) → Core → Prop
  | start : Session P s [] s
  | call (l : List (Request × Reply)) (t u v : Core) (q : Request) (r : Reply) :
      Session P s l t → Runs P t u → Calls P u q → q ≠ .exit → Answers u r v → Session P s (l ++ [(q, r)]) v

/-- The texts are in memory. -/
def Loaded (m : Image) (mem : Nat → UInt8) : Prop :=
  ∀ t : Text, ∀ i ≤ t.chars.length, mem (m.text t + i) = t.chars.getD i 0

/-- The program has been loaded, and its task is at the start. -/
structure Started (m : Image) (s : Core) : Prop where
  pc : s.pc = (program m).addr ._start
  esp : s.reg .esp = 0x3FF000
  loaded : Loaded m s.mem

end PeachOS.Shell
