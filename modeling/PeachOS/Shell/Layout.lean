import PeachOS.Shell.PrintInt

/-!
# The places of the shell's code

The pieces of each block that makes system calls, with their places in it. A step of the shell looks up the pieces
that it goes through.
-/

open PeachOS.Lib.Asm

namespace PeachOS.Shell

variable (m : Image)

/-! ## The length of the code -/

@[simp] theorem syscall_length (n : Nat) (os : List Operand) : (syscall n os).length = os.length + 2 := by
  simp [syscall]

@[simp] theorem pops_length (n : Nat) : (pops n).length = 1 := rfl

@[simp] theorem dispatch_length (t : Text) (l : Label) : (dispatch m t l).length = 6 := rfl

@[simp] theorem pathOf_length (n : Nat) : (pathOf m n).length = 4 := rfl

@[simp] theorem exit_length : exit.length = 2 := rfl

@[simp] theorem print_length (a : Nat) : (print a).length = 4 := rfl

theorem codeOf_length_le (l : Label) : (codeOf m l).length ≤ 100 := by
  cases l <;>
  simp only [codeOf, code_start, code_prompt_loop, code_read_again, code_do_exit, code_do_exit_now, code_parent_wait,
    code_wait_loop, code_do_ls, code_ls_loop, code_ls_done, code_do_cat, code_cat_fail, code_do_write, code_write_fail,
    code_do_del, code_del_fail, code_build_path, code_bp_loop, code_bp_end, code_print_int, code_pi_loop, code_pi_print,
    code_str_startswith, code_sw_loop, code_sw_match, code_sw_no, code_sw_done, code_memzero, List.flatten_cons,
    List.flatten_nil, List.length_append, List.length_cons, List.length_nil, syscall_length, pops_length,
    dispatch_length, pathOf_length, exit_length, print_length] <;>
  decide

theorem program_length_lt : (program m).code.length < 3000 := by
  have hsum : ∀ ls : List Label, ((ls.map fun l => (l, codeOf m l)).flatMap Prod.snd).length ≤ 100 * ls.length := by
    intro ls
    induction ls with
    | nil => exact Nat.le_refl 0
    | cons l ls ih =>
      have := codeOf_length_le m l
      rw [List.map_cons, List.flatMap_cons, List.length_append, List.length_cons]
      dsimp only
      omega
  rw [Program.code, program]
  exact (hsum Label.all).trans_lt (by decide)

theorem addr_lt {a : Nat} {i : Ins Label} {is : List (Ins Label)} (h : (program m).CodeAt a (i :: is)) : a < 3000 :=
  (List.getElem?_eq_some_iff.mp (codeAt_cons.mp h).1).1.trans (program_length_lt m)

theorem addr_prompt_loop : (program m).addr .prompt_loop = (program m).addr ._start + 4 := by
  simp [program, Label.all, codeOf, Program.addr, offsetIn, code_start]

theorem addr_read_again : (program m).addr .read_again = (program m).addr .prompt_loop + 8 := by
  simp [program, Label.all, codeOf, Program.addr, offsetIn, code_prompt_loop]

theorem addr_wait_loop : (program m).addr .wait_loop = (program m).addr .parent_wait + 12 := by
  simp [program, Label.all, codeOf, Program.addr, offsetIn, code_parent_wait, Nat.add_assoc]

theorem addr_ls_loop : (program m).addr .ls_loop = (program m).addr .do_ls + 5 := by
  simp [program, Label.all, codeOf, Program.addr, offsetIn, code_do_ls, Nat.add_assoc]

/-! ## Pieces -/

def pieces : Label → List (Nat × List (Ins Label))
  | ._start =>
    [(0, syscall SYS_PRINT [.imm (m.text .msg_welcome)]), (3, pops 4)]
  | .prompt_loop =>
    [(0, [.push (.imm 64), .push (.imm m.cmd_buf), .call .memzero]), (3, pops 8),
      (4, syscall SYS_PRINT [.imm (m.text .msg_prompt)]), (7, pops 4)]
  | .read_again =>
    [(0, syscall SYS_READLINE [.imm m.cmd_buf, .imm 63]), (4, pops 8),
      (5, [.test (.reg .eax) (.reg .eax), .jcc .le .read_again]), (7, dispatch m .cmd_exit .do_exit_now),
      (13, dispatch m .cmd_quit .do_exit_now), (19, syscall SYS_FORK []),
      (21, [.test (.reg .eax) (.reg .eax), .jcc .s .prompt_loop, .jcc .nz .parent_wait]),
      (24, dispatch m .cmd_ls .do_ls), (30, dispatch m .cmd_cat .do_cat), (36, dispatch m .cmd_write .do_write),
      (42, dispatch m .cmd_del .do_del), (48, dispatch m .cmd_exit .do_exit),
      (54, syscall SYS_PRINT [.imm (m.text .msg_unknown)]), (57, pops 4), (58, exit)]
  | .do_exit_now =>
    [(0, syscall SYS_PRINT [.imm (m.text .msg_exit)]), (3, pops 4), (4, exit)]
  | .parent_wait =>
    [(0, [.mov (.mem ⟨none, m.child_pid⟩) (.reg .eax)]), (1, syscall SYS_PRINT [.imm (m.text Text.msg_fork_prefix)]),
      (4, pops 4), (5, [.push (.mem ⟨none, m.child_pid⟩), .call .print_int]), (7, pops 4),
      (8, syscall SYS_PRINT [.imm (m.text .msg_newline)]), (11, pops 4)]
  | .wait_loop =>
    [(0, syscall SYS_WAIT [.mem ⟨none, m.child_pid⟩]), (3, pops 4),
      (4, [.test (.reg .eax) (.reg .eax), .jcc .nz .wait_loop]),
      (6, syscall SYS_PRINT [.imm (m.text .msg_parent_resume)]), (9, pops 4), (10, [.jmp .prompt_loop])]
  | .do_ls =>
    [(0, syscall SYS_PRINT [.imm (m.text .msg_ls_header)]), (3, pops 4), (4, [.mov (.mem ⟨none, m.ls_index⟩) (.imm 0)])]
  | .ls_loop =>
    [(0, [.push (.imm 64), .push (.imm m.read_buf), .call .memzero]), (3, pops 8),
      (4, syscall SYS_READDIR [.mem ⟨none, m.ls_index⟩, .imm m.read_buf, .imm 64]), (9, pops 12),
      (10, [.cmp (.reg .eax) (.imm 1), .jcc .nz .ls_done]), (12, syscall SYS_PRINT [.imm (m.text .msg_ls_indent)]),
      (15, pops 4), (16, syscall SYS_PRINT [.imm m.read_buf]), (19, pops 4),
      (20, syscall SYS_PRINT [.imm (m.text .msg_newline)]), (23, pops 4),
      (24, [.inc (.mem ⟨none, m.ls_index⟩), .jmp .ls_loop])]
  | .ls_done =>
    [(0, exit)]
  | .do_cat =>
    [(0, pathOf m 4), (4, syscall SYS_OPEN [.imm m.path_buf, .imm FILE_MODE_READ]), (8, pops 8),
      (9, [.test (.reg .eax) (.reg .eax), .jcc .z .cat_fail]), (11, [.mov (.mem ⟨none, m.fd_store⟩) (.reg .eax)]),
      (12, syscall SYS_READ [.mem ⟨none, m.fd_store⟩, .imm m.read_buf, .imm 63]), (17, pops 12),
      (18, [.test (.reg .eax) (.reg .eax), .jcc .le .cat_fail]), (20, syscall SYS_PRINT [.imm m.read_buf]),
      (23, pops 4), (24, syscall SYS_PRINT [.imm (m.text .msg_newline)]), (27, pops 4),
      (28, syscall SYS_CLOSE [.mem ⟨none, m.fd_store⟩]), (31, pops 4), (32, exit)]
  | .cat_fail =>
    [(0, syscall SYS_PRINT [.imm (m.text .msg_err_read)]), (3, pops 4), (4, exit)]
  | .do_write =>
    [(0, pathOf m 6), (4, syscall SYS_PRINT [.imm (m.text .msg_write_prompt)]), (7, pops 4),
      (8, [.push (.imm 512), .push (.imm m.write_buf), .call .memzero]), (11, pops 8),
      (12, syscall SYS_READLINE [.imm m.write_buf, .imm 511]), (16, pops 8),
      (17, [.mov (.mem ⟨none, m.write_count⟩) (.reg .eax)]),
      (18, syscall SYS_OPEN [.imm m.path_buf, .imm FILE_MODE_WRITE]), (22, pops 8),
      (23, [.test (.reg .eax) (.reg .eax), .jcc .z .write_fail]), (25, [.mov (.mem ⟨none, m.fd_store⟩) (.reg .eax)]),
      (26, syscall SYS_WRITE [.mem ⟨none, m.fd_store⟩, .imm m.write_buf, .mem ⟨none, m.write_count⟩]), (31, pops 12),
      (32, [.mov (.mem ⟨none, m.write_result⟩) (.reg .eax)]), (33, syscall SYS_CLOSE [.mem ⟨none, m.fd_store⟩]),
      (36, pops 4), (37, [.cmp (.mem ⟨none, m.write_result⟩) (.imm 0), .jcc .l .write_fail]),
      (39, syscall SYS_PRINT [.imm (m.text .msg_write_ok)]), (42, pops 4), (43, syscall SYS_PRINT [.imm m.path_buf]),
      (46, pops 4), (47, syscall SYS_PRINT [.imm (m.text .msg_newline)]), (50, pops 4), (51, exit)]
  | .write_fail =>
    [(0, syscall SYS_PRINT [.imm (m.text .msg_err_write)]), (3, pops 4), (4, exit)]
  | .do_del =>
    [(0, pathOf m 4), (4, syscall SYS_DELETE [.imm m.path_buf]), (7, pops 4),
      (8, [.test (.reg .eax) (.reg .eax), .jcc .l .del_fail]), (10, syscall SYS_PRINT [.imm (m.text .msg_del_ok)]),
      (13, pops 4), (14, syscall SYS_PRINT [.imm m.path_buf]), (17, pops 4),
      (18, syscall SYS_PRINT [.imm (m.text .msg_newline)]), (21, pops 4), (22, exit)]
  | .del_fail =>
    [(0, syscall SYS_PRINT [.imm (m.text .msg_err_del)]), (3, pops 4), (4, exit)]
  | _ => []

theorem piece_code {l : Label} {n : Nat} {is : List (Ins Label)} (h : (n, is) ∈ pieces m l) :
    (program m).CodeAt ((program m).addr l + n) is := by
  suffices hall : ∀ x ∈ pieces m l, (program m).CodeAt ((program m).addr l + x.1) x.2 from hall _ h
  have hc := label_code m l
  cases l <;>
  simp only [codeOf, code_start, code_prompt_loop, code_read_again, code_do_exit_now, code_parent_wait, code_wait_loop,
    code_do_ls, code_ls_loop, code_ls_done, code_do_cat, code_cat_fail, code_do_write, code_write_fail, code_do_del,
    code_del_fail, print, List.flatten_cons, List.flatten_nil, codeAt_append, codeAt_nil, and_true, and_assoc,
    syscall_length, pops_length, dispatch_length, pathOf_length, exit_length, List.length_append, List.length_cons,
    List.length_nil, Nat.add_assoc, Nat.reduceAdd] at hc <;>
  simp only [pieces, List.forall_mem_cons, List.not_mem_nil, false_implies, implies_true, and_true, Nat.add_zero, hc]

end PeachOS.Shell
