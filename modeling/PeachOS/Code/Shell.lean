import PeachOS.Lib.Asm

/-!
# The shell, `programs/shell/shell.asm`

The program, line by line, at the addresses that the linker gives its data: the texts of `.data` one behind the other,
and the variables of `.bss` behind them. Local labels are used under their own names.
-/

open PeachOS.Lib.Asm

namespace PeachOS.Shell

/-! ## Data -/

def ascii (s : String) : List UInt8 := s.toList.map fun c => UInt8.ofNat c.toNat

/-- The labels of `.data`, in order. -/
inductive Text
  | msg_welcome | msg_prompt | msg_unknown | msg_ls_header | msg_ls_indent | msg_cat_header | msg_newline | msg_err_read
  | msg_write_prompt | msg_write_ok | msg_del_ok | msg_err_write | msg_err_del | msg_fork_prefix | msg_parent_resume
  | cmd_ls | cmd_cat | cmd_write | cmd_del | cmd_exit | cmd_quit | msg_exit | path_hello
deriving DecidableEq

namespace Text

def all : List Text :=
  [msg_welcome, msg_prompt, msg_unknown, msg_ls_header, msg_ls_indent, msg_cat_header, msg_newline, msg_err_read,
    msg_write_prompt, msg_write_ok, msg_del_ok, msg_err_write, msg_err_del, msg_fork_prefix, msg_parent_resume, cmd_ls,
    cmd_cat, cmd_write, cmd_del, cmd_exit, cmd_quit, msg_exit, path_hello]

/-- The characters before the NUL. -/
def chars : Text → List UInt8
  | msg_welcome =>
    ascii "CYSEOS Shell v0.1\nCommands: ls  cat <file>  write <file>  del <file>  exit/quit\n"
  | msg_prompt => ascii "> "
  | msg_unknown => ascii "Unknown command. Try: ls  cat <file>  write <file>  del <file>\n"
  | msg_ls_header => ascii "Directory of 0:/\n"
  | msg_ls_indent => ascii "  "
  | msg_cat_header => ascii "cat 0:/hello.txt:\n"
  | msg_newline => ascii "\n"
  | msg_err_read => ascii "Error: could not read\n"
  | msg_write_prompt => ascii "Enter content: "
  | msg_write_ok => ascii "File written: "
  | msg_del_ok => ascii "Deleted: "
  | msg_err_write => ascii "Error: write failed\n"
  | msg_err_del => ascii "Error: delete failed\n"
  | msg_fork_prefix => ascii "[fork] child PID: "
  | msg_parent_resume => ascii "[parent] child exited, shell resuming\n"
  | cmd_ls => ascii "ls"
  | cmd_cat => ascii "cat "
  | cmd_write => ascii "write "
  | cmd_del => ascii "del "
  | cmd_exit => ascii "exit"
  | cmd_quit => ascii "quit"
  | msg_exit => ascii "Goodbye!\n"
  | path_hello => ascii "0:/hello.txt"

/-- The bytes that texts take one behind the other, each with its NUL. -/
def room : List Text → Nat
  | [] => 0
  | t :: ts => t.chars.length + 1 + room ts

/-- Where a text is in `.data`, behind the texts before it. -/
def offset (t : Text) : Nat := room (all.takeWhile (· ≠ t))

def size : Nat := room all

end Text

/-- Where the linker puts the two sections. The program starts at `PEACHOS_PROGRAM_VIRTUAL_ADDRESS`. -/
structure Image where
  data : Nat
  bss : Nat
  data_low : 0x400000 ≤ data
  data_bss : data + Text.size ≤ bss
  bss_high : bss + 800 ≤ 0x80000000

namespace Image

variable (m : Image)

def text (t : Text) : Nat := m.data + t.offset

def cmd_buf : Nat := m.bss
def read_buf : Nat := m.bss + 64
def fd_store : Nat := m.bss + 128
def ls_index : Nat := m.bss + 132
def path_buf : Nat := m.bss + 136
def write_buf : Nat := m.bss + 264
def write_count : Nat := m.bss + 776
def write_result : Nat := m.bss + 780
def child_pid : Nat := m.bss + 784
def int_buf : Nat := m.bss + 788

end Image

/-! ## Code -/

def SYS_PRINT : Nat := 1
def SYS_OPEN : Nat := 2
def SYS_READ : Nat := 3
def SYS_FORK : Nat := 4
def SYS_EXIT : Nat := 5
def SYS_READLINE : Nat := 6
def SYS_WRITE : Nat := 7
def SYS_DELETE : Nat := 8
def SYS_CLOSE : Nat := 9
def SYS_READDIR : Nat := 10
def SYS_WAIT : Nat := 11

def FILE_MODE_READ : Nat := 0
def FILE_MODE_WRITE : Nat := 1

inductive Label
  | _start | prompt_loop | read_again | do_exit | do_exit_now | parent_wait | wait_loop | do_ls | ls_loop | ls_done
  | do_cat | cat_fail | do_write | write_fail | do_del | del_fail | build_path | bp_loop | bp_end | print_int | pi_loop
  | pi_print | str_startswith | sw_loop | sw_match | sw_no | sw_done | memzero
deriving DecidableEq

/-- The labels in the order of the file. -/
def Label.all : List Label :=
  [._start, .prompt_loop, .read_again, .do_exit, .do_exit_now, .parent_wait, .wait_loop, .do_ls, .ls_loop,
    .ls_done, .do_cat, .cat_fail, .do_write, .write_fail, .do_del, .del_fail, .build_path, .bp_loop, .bp_end,
    .print_int, .pi_loop, .pi_print, .str_startswith, .sw_loop, .sw_match, .sw_no, .sw_done, .memzero]

variable (m : Image)

/-- `push arg` for each argument, the last one first, and the system call. -/
def syscall (n : Nat) (args : List Operand) : List (Ins Label) :=
  args.reverse.map .push ++ [.mov (.reg .eax) (.imm n), .int 0x80]

/-- The stack pointer goes back over the arguments of a call. -/
def pops (n : Nat) : List (Ins Label) := [.add (.reg .esp) (.imm n)]

def print (a : Nat) : List (Ins Label) := syscall SYS_PRINT [.imm a] ++ pops 4

/-- A jump to `l` if the command starts with a text. -/
def dispatch (t : Text) (l : Label) : List (Ins Label) :=
  [.push (.imm (m.text t)), .push (.imm m.cmd_buf), .call .str_startswith] ++ pops 8 ++
    [.test (.reg .eax) (.reg .eax), .jcc .nz l]

def exit : List (Ins Label) := syscall SYS_EXIT []

def code_start : List (Ins Label) := print (m.text .msg_welcome)

def code_prompt_loop : List (Ins Label) :=
  List.flatten
    [[.push (.imm 64), .push (.imm m.cmd_buf), .call .memzero], pops 8,
      print (m.text .msg_prompt)]

def code_read_again : List (Ins Label) :=
  List.flatten
    [syscall SYS_READLINE [.imm m.cmd_buf, .imm 63], pops 8,
      [.test (.reg .eax) (.reg .eax), .jcc .le .read_again],
      dispatch m .cmd_exit .do_exit_now,
      dispatch m .cmd_quit .do_exit_now,
      syscall SYS_FORK [],
      [.test (.reg .eax) (.reg .eax), .jcc .s .prompt_loop, .jcc .nz .parent_wait],
      dispatch m .cmd_ls .do_ls,
      dispatch m .cmd_cat .do_cat,
      dispatch m .cmd_write .do_write,
      dispatch m .cmd_del .do_del,
      dispatch m .cmd_exit .do_exit,
      print (m.text .msg_unknown),
      exit]

def code_do_exit : List (Ins Label) := print (m.text .msg_exit) ++ exit

def code_do_exit_now : List (Ins Label) := print (m.text .msg_exit) ++ exit

def code_parent_wait : List (Ins Label) :=
  List.flatten
    [[.mov (.mem ⟨none, m.child_pid⟩) (.reg .eax)],
      print (m.text Text.msg_fork_prefix),
      [.push (.mem ⟨none, m.child_pid⟩), .call .print_int], pops 4,
      print (m.text .msg_newline)]

def code_wait_loop : List (Ins Label) :=
  List.flatten
    [syscall SYS_WAIT [.mem ⟨none, m.child_pid⟩], pops 4,
      [.test (.reg .eax) (.reg .eax), .jcc .nz .wait_loop],
      print (m.text .msg_parent_resume),
      [.jmp .prompt_loop]]

def code_do_ls : List (Ins Label) := print (m.text .msg_ls_header) ++ [.mov (.mem ⟨none, m.ls_index⟩) (.imm 0)]

def code_ls_loop : List (Ins Label) :=
  List.flatten
    [[.push (.imm 64), .push (.imm m.read_buf), .call .memzero], pops 8,
      syscall SYS_READDIR [.mem ⟨none, m.ls_index⟩, .imm m.read_buf, .imm 64], pops 12,
      [.cmp (.reg .eax) (.imm 1), .jcc .nz .ls_done],
      print (m.text .msg_ls_indent),
      print m.read_buf,
      print (m.text .msg_newline),
      [.inc (.mem ⟨none, m.ls_index⟩), .jmp .ls_loop]]

def code_ls_done : List (Ins Label) := exit

/-- `lea eax, [cmd_buf+n]`, and the path behind the command. -/
def pathOf (n : Nat) : List (Ins Label) :=
  [.lea .eax ⟨none, m.cmd_buf + n⟩, .push (.reg .eax), .call .build_path] ++ pops 4

def code_do_cat : List (Ins Label) :=
  List.flatten
    [pathOf m 4,
      syscall SYS_OPEN [.imm m.path_buf, .imm FILE_MODE_READ], pops 8,
      [.test (.reg .eax) (.reg .eax), .jcc .z .cat_fail],
      [.mov (.mem ⟨none, m.fd_store⟩) (.reg .eax)],
      syscall SYS_READ [.mem ⟨none, m.fd_store⟩, .imm m.read_buf, .imm 63], pops 12,
      [.test (.reg .eax) (.reg .eax), .jcc .le .cat_fail],
      print m.read_buf,
      print (m.text .msg_newline),
      syscall SYS_CLOSE [.mem ⟨none, m.fd_store⟩], pops 4,
      exit]

def code_cat_fail : List (Ins Label) := print (m.text .msg_err_read) ++ exit

def code_do_write : List (Ins Label) :=
  List.flatten
    [pathOf m 6,
      print (m.text .msg_write_prompt),
      [.push (.imm 512), .push (.imm m.write_buf), .call .memzero], pops 8,
      syscall SYS_READLINE [.imm m.write_buf, .imm 511], pops 8,
      [.mov (.mem ⟨none, m.write_count⟩) (.reg .eax)],
      syscall SYS_OPEN [.imm m.path_buf, .imm FILE_MODE_WRITE], pops 8,
      [.test (.reg .eax) (.reg .eax), .jcc .z .write_fail],
      [.mov (.mem ⟨none, m.fd_store⟩) (.reg .eax)],
      syscall SYS_WRITE [.mem ⟨none, m.fd_store⟩, .imm m.write_buf, .mem ⟨none, m.write_count⟩], pops 12,
      [.mov (.mem ⟨none, m.write_result⟩) (.reg .eax)],
      syscall SYS_CLOSE [.mem ⟨none, m.fd_store⟩], pops 4,
      [.cmp (.mem ⟨none, m.write_result⟩) (.imm 0), .jcc .l .write_fail],
      print (m.text .msg_write_ok),
      print m.path_buf,
      print (m.text .msg_newline),
      exit]

def code_write_fail : List (Ins Label) := print (m.text .msg_err_write) ++ exit

def code_do_del : List (Ins Label) :=
  List.flatten
    [pathOf m 4,
      syscall SYS_DELETE [.imm m.path_buf], pops 4,
      [.test (.reg .eax) (.reg .eax), .jcc .l .del_fail],
      print (m.text .msg_del_ok),
      print m.path_buf,
      print (m.text .msg_newline),
      exit]

def code_del_fail : List (Ins Label) := print (m.text .msg_err_del) ++ exit

def code_build_path : List (Ins Label) :=
  [.push (.reg .ebp), .mov (.reg .ebp) (.reg .esp), .push (.reg .esi), .push (.reg .edi), .push (.reg .ecx),
    .mov (.reg .edi) (.imm m.path_buf), .movb (.mem ⟨some .edi, 0⟩) (.imm 0x30),
    .movb (.mem ⟨some .edi, 1⟩) (.imm 0x3A), .movb (.mem ⟨some .edi, 2⟩) (.imm 0x2F), .add (.reg .edi) (.imm 3),
    .mov (.reg .esi) (.mem ⟨some .ebp, 8⟩), .mov (.reg .ecx) (.imm 124)]

def code_bp_loop : List (Ins Label) :=
  [.movb (.reg .eax) (.mem ⟨some .esi, 0⟩), .testb (.reg .eax) (.reg .eax), .jcc .z .bp_end,
    .cmpb (.reg .eax) (.imm 0x0A), .jcc .z .bp_end, .cmpb (.reg .eax) (.imm 0x0D), .jcc .z .bp_end,
    .movb (.mem ⟨some .edi, 0⟩) (.reg .eax), .inc (.reg .esi), .inc (.reg .edi), .dec (.reg .ecx), .jcc .nz .bp_loop]

def code_bp_end : List (Ins Label) :=
  [.movb (.mem ⟨some .edi, 0⟩) (.imm 0), .pop .ecx, .pop .edi, .pop .esi, .pop .ebp, .ret]

def code_print_int : List (Ins Label) :=
  [.push (.reg .ebp), .mov (.reg .ebp) (.reg .esp), .push (.reg .edi), .push (.reg .ecx), .push (.reg .edx),
    .push (.reg .ebx), .mov (.reg .eax) (.mem ⟨some .ebp, 8⟩), .lea .edi ⟨none, m.int_buf + 10⟩,
    .movb (.mem ⟨some .edi, 0⟩) (.imm 0), .dec (.reg .edi), .mov (.reg .ecx) (.imm 0), .test (.reg .eax) (.reg .eax),
    .jcc .nz .pi_loop, .movb (.mem ⟨some .edi, 0⟩) (.imm 0x30), .dec (.reg .edi), .inc (.reg .ecx), .jmp .pi_print]

def code_pi_loop : List (Ins Label) :=
  [.test (.reg .eax) (.reg .eax), .jcc .z .pi_print, .xor (.reg .edx) (.reg .edx), .mov (.reg .ebx) (.imm 10),
    .div (.reg .ebx), .addb (.reg .edx) (.imm 0x30), .movb (.mem ⟨some .edi, 0⟩) (.reg .edx), .dec (.reg .edi),
    .inc (.reg .ecx), .jmp .pi_loop]

def code_pi_print : List (Ins Label) :=
  [.inc (.reg .edi)] ++ syscall SYS_PRINT [.reg .edi] ++ pops 4 ++
  [.pop .ebx, .pop .edx, .pop .ecx, .pop .edi, .pop .ebp, .ret]

def code_str_startswith : List (Ins Label) :=
  [.push (.reg .ebp), .mov (.reg .ebp) (.reg .esp), .push (.reg .esi), .push (.reg .edi),
    .mov (.reg .esi) (.mem ⟨some .ebp, 8⟩), .mov (.reg .edi) (.mem ⟨some .ebp, 12⟩)]

def code_sw_loop : List (Ins Label) :=
  [.movb (.reg .eax) (.mem ⟨some .edi, 0⟩), .testb (.reg .eax) (.reg .eax), .jcc .z .sw_match,
    .movb (.reg .ebx) (.mem ⟨some .esi, 0⟩), .cmpb (.reg .eax) (.reg .ebx), .jcc .nz .sw_no, .inc (.reg .esi),
    .inc (.reg .edi), .jmp .sw_loop]

def code_sw_match : List (Ins Label) := [.mov (.reg .eax) (.imm 1), .jmp .sw_done]

def code_sw_no : List (Ins Label) := [.mov (.reg .eax) (.imm 0)]

def code_sw_done : List (Ins Label) := [.pop .edi, .pop .esi, .pop .ebp, .ret]

def code_memzero : List (Ins Label) :=
  [.push (.reg .ebp), .mov (.reg .ebp) (.reg .esp), .push (.reg .edi), .mov (.reg .edi) (.mem ⟨some .ebp, 8⟩),
    .mov (.reg .ecx) (.mem ⟨some .ebp, 12⟩), .xor (.reg .eax) (.reg .eax), .rep_stosb, .pop .edi, .pop .ebp, .ret]

def codeOf : Label → List (Ins Label)
  | ._start => code_start m
  | .prompt_loop => code_prompt_loop m
  | .read_again => code_read_again m
  | .do_exit => code_do_exit m
  | .do_exit_now => code_do_exit_now m
  | .parent_wait => code_parent_wait m
  | .wait_loop => code_wait_loop m
  | .do_ls => code_do_ls m
  | .ls_loop => code_ls_loop m
  | .ls_done => code_ls_done
  | .do_cat => code_do_cat m
  | .cat_fail => code_cat_fail m
  | .do_write => code_do_write m
  | .write_fail => code_write_fail m
  | .do_del => code_do_del m
  | .del_fail => code_del_fail m
  | .build_path => code_build_path m
  | .bp_loop => code_bp_loop
  | .bp_end => code_bp_end
  | .print_int => code_print_int m
  | .pi_loop => code_pi_loop
  | .pi_print => code_pi_print
  | .str_startswith => code_str_startswith
  | .sw_loop => code_sw_loop
  | .sw_match => code_sw_match
  | .sw_no => code_sw_no
  | .sw_done => code_sw_done
  | .memzero => code_memzero

@[irreducible] def program : Program Label where
  blocks := Label.all.map fun l => (l, codeOf m l)

end PeachOS.Shell
