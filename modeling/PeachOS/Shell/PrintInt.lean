import PeachOS.Shell.Routines

/-!
# `print_int`

The digits are written from the end of `int_buf` backwards, and the routine makes its system call from its own frame: it
has a part up to the call, and a part behind it.
-/

open PeachOS.Lib.Asm

namespace PeachOS.Shell

/-! ## Digits -/

theorem digits_length_le (fuel k n : Nat) (h : n < 10 ^ k) : (digits fuel n).length ≤ k := by
  induction fuel generalizing k n with
  | zero => exact Nat.zero_le k
  | succ fuel ih =>
    unfold digits
    split
    · exact Nat.zero_le k
    · rename_i hn
      cases k with
      | zero => omega
      | succ k =>
        rw [Nat.pow_succ] at h
        exact Nat.succ_le_succ (ih k (n / 10) (by omega))

theorem digits_no_nul (fuel n : Nat) : 0 ∉ digits fuel n := by
  induction fuel generalizing n with
  | zero => exact List.not_mem_nil
  | succ fuel ih =>
    unfold digits
    split
    · exact List.not_mem_nil
    · rw [List.mem_cons, not_or]
      refine ⟨fun h => ?_, ih _⟩
      have := congrArg UInt8.toNat h
      rw [UInt8.toNat_ofNat'] at this
      simp only [UInt8.toNat_zero] at this
      omega

theorem decimal_no_nul (n : Nat) : 0 ∉ decimal n := by
  unfold decimal
  split
  · decide
  · rw [List.mem_reverse]
    exact digits_no_nul n n

variable (m : Image) {b : Nat}

theorem pi_loop_code : (program m).CodeAt ((program m).addr .pi_loop) code_pi_loop :=
  label_code m _

theorem pi_loop_turn (s : Core) (hpc : s.pc = (program m).addr .pi_loop) (hn : s.reg .eax < 2 ^ 32)
    (h0 : s.reg .eax ≠ 0) (hlow : 1 ≤ s.reg .edi) (hhigh : s.reg .edi < 2 ^ 32) :
    ∃ t, Runs (program m) s t ∧ t.pc = (program m).addr .pi_loop ∧ t.reg .esp = s.reg .esp ∧
      t.reg .eax = s.reg .eax / 10 ∧ t.reg .edi + 1 = s.reg .edi ∧
      t.mem = storeByte s.mem (s.reg .edi) (UInt8.ofNat (48 + s.reg .eax % 10)) := by
  have hc1 := codeAt_part (pi_loop_code m) 0 2
  have hc2 := codeAt_part (pi_loop_code m) 2 8
  obtain ⟨u, hu, hureg, humem, -, hupc⟩ := runs_test (by rw [hpc]; exact hc1)
  rw [holds_z_logic, decide_eq_false h0, if_neg Bool.false_ne_true, hpc] at hupc
  obtain ⟨t, ht, hesp, heax, hedi, hmem⟩ : ∃ t, effects ((code_pi_loop.drop 2).take 7) u = some t ∧
      t.reg .esp = u.reg .esp ∧ t.reg .eax = u.reg .eax / 10 ∧ t.reg .edi = u.reg .edi - 1 ∧
      t.mem = storeByte u.mem (u.reg .edi) (UInt8.ofNat (48 + u.reg .eax % 10)) := by
    rw [← hureg] at hn hlow hhigh
    have hquot : ¬ 4294967296 ≤ u.reg .eax / 10 := by omega
    have hdigit : (u.reg .eax % 10 + 48) % 256 = 48 + u.reg .eax % 10 := by omega
    simp (disch := omega) [code_pi_loop, hquot, hdigit, sub32_of_le, Nat.mod_eq_of_lt]
  rw [hureg] at hesp heax hedi
  rw [hureg, humem] at hmem
  refine ⟨_, runs_trans hu (runs_goto (by rw [hupc]; exact hc2) ht), rfl, hesp, heax, ?_, hmem⟩
  rw [Core.goto_reg, hedi]
  omega

theorem pi_loop_runs (fuel : Nat) (s : Core) (hpc : s.pc = (program m).addr .pi_loop) (hfuel : s.reg .eax ≤ fuel)
    (hn : s.reg .eax < 2 ^ 32) (hlow : (digits fuel (s.reg .eax)).length ≤ s.reg .edi) (hhigh : s.reg .edi < 2 ^ 32) :
    ∃ t, Runs (program m) s t ∧ t.pc = (program m).addr .pi_print ∧ t.reg .esp = s.reg .esp ∧
      t.reg .edi + (digits fuel (s.reg .eax)).length = s.reg .edi ∧
      BytesAt t.mem (t.reg .edi + 1) (digits fuel (s.reg .eax)).reverse ∧
      ∀ x, (x ≤ t.reg .edi ∨ s.reg .edi < x) → t.mem x = s.mem x := by
  -- every turn takes off the last digit
  induction fuel generalizing s with
  | zero =>
    obtain ⟨t, ht, htreg, htmem, -, htpc⟩ := runs_test (by rw [hpc]; exact codeAt_part (pi_loop_code m) 0 2)
    rw [holds_z_logic, decide_eq_true (Nat.le_zero.mp hfuel), if_pos rfl] at htpc
    exact ⟨t, ht, htpc, by rw [htreg], by rw [htreg]; rfl, trivial, fun x _ => by rw [htmem]⟩
  | succ fuel ih =>
    by_cases h0 : s.reg .eax = 0
    · obtain ⟨t, ht, htreg, htmem, -, htpc⟩ := runs_test (by rw [hpc]; exact codeAt_part (pi_loop_code m) 0 2)
      rw [holds_z_logic, decide_eq_true h0, if_pos rfl] at htpc
      rw [digits, if_pos h0]
      exact ⟨t, ht, htpc, by rw [htreg], by rw [htreg]; rfl, trivial, fun x _ => by rw [htmem]⟩
    · rw [digits, if_neg h0] at hlow ⊢
      rw [List.length_cons] at hlow
      obtain ⟨t, ht, htpc, htesp, hteax, htedi, htmem⟩ := pi_loop_turn m s hpc hn h0 (by omega) hhigh
      rw [← hteax] at hlow ⊢
      obtain ⟨u, hu, hupc, huesp, huedi, hubytes, humem⟩ := ih t htpc (by omega) (by omega) (by omega) (by omega)
      refine ⟨u, runs_trans ht hu, hupc, by rw [huesp, htesp], ?_, ?_, fun x hx => ?_⟩
      · rw [List.length_cons]
        omega
      · rw [List.reverse_cons, bytesAt_append, List.length_reverse]
        refine ⟨hubytes, ?_, trivial⟩
        have hplace : u.reg .edi + 1 + (digits fuel (t.reg .eax)).length = s.reg .edi := by omega
        rw [hplace, humem _ (by omega), htmem, storeByte_same]
      · rw [humem x (by omega), htmem, storeByte_out _ _ _ _ (by omega)]

/-! ## The routine -/

theorem decimal_length (n : Nat) (h : n < 2 ^ 32) : 1 ≤ (decimal n).length ∧ (decimal n).length ≤ 10 := by
  unfold decimal
  split
  · exact ⟨Nat.le_refl 1, by decide⟩
  · rename_i hn
    rw [List.length_reverse]
    refine ⟨?_, digits_length_le n 10 n (by omega)⟩
    obtain ⟨k, rfl⟩ : ∃ k, n = k + 1 := ⟨n - 1, by omega⟩
    rw [digits, if_neg hn, List.length_cons]
    omega

theorem print_int_digits (s : Core) (n : Nat) (hpc : s.pc = (program m).addr .print_int) (hsp : s.reg .esp = b + 24)
    (hlow : b + 32 ≤ m.int_buf) (hn : load32 s.mem (b + 28) = n) :
    ∃ t, Runs (program m) s t ∧ t.pc = (program m).addr .pi_print ∧ t.reg .esp = b + 4 ∧
      t.reg .edi + (decimal n).length = m.int_buf + 9 ∧ BytesAt t.mem (t.reg .edi + 1) (decimal n ++ [0]) ∧
      ∀ x, ¬ (m.int_buf ≤ x ∧ x < m.int_buf + 11) → (x < b ∨ b + 24 ≤ x) → t.mem x = s.mem x := by
  have hn32 : n < 2 ^ 32 := by
    rw [← hn]
    exact load32_lt _ _
  have hroom : m.int_buf + 12 < 2 ^ 32 := by
    have := m.bss_high
    unfold Image.int_buf
    omega
  have hc : (program m).CodeAt ((program m).addr .print_int) (code_print_int m) :=
    label_code m _
  have hc0 := codeAt_part hc 0 11
  have hc11 := codeAt_part hc 11 2
  have hc13 := codeAt_part hc 13 4
  obtain ⟨t, ht, hesp, hedi, heax, hmem⟩ : ∃ t, effects ((code_print_int m).take 11) s = some t ∧ t.reg .esp = b + 4 ∧
      t.reg .edi = m.int_buf + 9 ∧ t.reg .eax = n ∧
      t.mem = storeByte (store32 (store32 (store32 (store32 (store32 s.mem (b + 20) (s.reg .ebp)) (b + 16) (s.reg .edi))
        (b + 12) (s.reg .ecx)) (b + 8) (s.reg .edx)) (b + 4) (s.reg .ebx)) (m.int_buf + 10) 0 := by
    simp (disch := omega) [code_print_int, hsp, sub32_of_le, Nat.mod_eq_of_lt, load32_store32_out, hn]
  have hframe : ∀ x, x ≠ m.int_buf + 10 → (x < b ∨ b + 24 ≤ x) → t.mem x = s.mem x := by
    intro x h1 h2
    rw [hmem, storeByte_out _ _ _ _ (by omega), store32_out _ _ _ _ (by omega), store32_out _ _ _ _ (by omega),
      store32_out _ _ _ _ (by omega), store32_out _ _ _ _ (by omega), store32_out _ _ _ _ (by omega)]
  have hnul : t.mem (m.int_buf + 10) = 0 := by rw [hmem, storeByte_same]
  have hrun := runs_block (by rw [hpc]; exact hc0) ht
  rw [hpc] at hrun
  obtain ⟨u, hu, hureg, humem, -, hupc⟩ := runs_test (s := t.goto ((program m).addr .print_int + 11)) hc11
  rw [Core.goto_reg] at hureg
  rw [Core.goto_mem] at humem
  rw [Core.goto_reg, heax, holds_nz_logic, Core.goto_pc] at hupc
  have hrun := runs_trans hrun hu
  by_cases h0 : n = 0
  · rw [decide_eq_true h0, Bool.not_true, if_neg Bool.false_ne_true] at hupc
    rw [← hureg] at hesp hedi
    obtain ⟨v, hv, hvesp, hvedi, hvmem⟩ : ∃ v, effects (((code_print_int m).drop 13).take 3) u = some v ∧
        v.reg .esp = u.reg .esp ∧ v.reg .edi = m.int_buf + 8 ∧ v.mem = storeByte u.mem (m.int_buf + 9) 0x30 := by
      simp (disch := omega) [code_print_int, hedi, sub32_of_le, Nat.mod_eq_of_lt]
    have hdec : decimal n = [0x30] := if_pos h0
    rw [humem] at hvmem
    refine ⟨_, runs_trans hrun (runs_goto (by rw [hupc]; exact hc13) hv), rfl,
      by rw [Core.goto_reg, hvesp, hesp], ?_, ?_, ?_⟩
    · rw [Core.goto_reg, hvedi, hdec]
      rfl
    · rw [Core.goto_reg, Core.goto_mem, hvedi, hvmem, hdec]
      refine ⟨storeByte_same _ _ _, ?_, trivial⟩
      rw [storeByte_out _ _ _ _ (by omega), hnul]
    · intro x h1 h2
      rw [Core.goto_mem, hvmem, storeByte_out _ _ _ _ (by omega), hframe x (by omega) h2]
  · rw [decide_eq_false h0, Bool.not_false, if_pos rfl] at hupc
    have hdec : decimal n = (digits n n).reverse := if_neg h0
    have hlen := (decimal_length n hn32).2
    rw [hdec, List.length_reverse] at hlen
    rw [← hureg] at hesp hedi heax
    obtain ⟨v, hv, hvpc, hvesp, hvedi, hvbytes, hvmem⟩ :=
      pi_loop_runs m n u hupc (by rw [heax]) (by rw [heax]; exact hn32) (by rw [heax, hedi]; omega)
      (by rw [hedi]; omega)
    rw [heax, hedi] at hvedi
    rw [heax] at hvbytes
    rw [hedi, humem] at hvmem
    rw [hdec, List.length_reverse]
    refine ⟨v, runs_trans hrun hv, hvpc, by rw [hvesp, hesp], hvedi, ?_, fun x h1 h2 => ?_⟩
    · rw [bytesAt_append, List.length_reverse]
      refine ⟨hvbytes, ?_, trivial⟩
      have hplace : v.reg .edi + 1 + (digits n n).length = m.int_buf + 10 := by omega
      rw [hplace, hvmem _ (by omega), hnul]
    · rw [hvmem x (by omega), hframe x (by omega) h2]

theorem pi_print_code : (program m).CodeAt ((program m).addr .pi_print) code_pi_print :=
  label_code m _

theorem print_int_traps (s : Core) (n : Nat) (hpc : s.pc = (program m).addr .print_int) (hsp : s.reg .esp = b + 24)
    (hlow : b + 32 ≤ m.int_buf) (hn : load32 s.mem (b + 28) = n) :
    ∃ t, Runs (program m) s t ∧ (program m).step t = .int 0x80 (t.goto (t.pc + 1)) ∧
      t.pc = (program m).addr .pi_print + 3 ∧ t.reg .eax = SYS_PRINT ∧ t.reg .esp = b ∧
      load32 t.mem b + (decimal n).length = m.int_buf + 10 ∧ BytesAt t.mem (load32 t.mem b) (decimal n ++ [0]) ∧
      ∀ x, ¬ (m.int_buf ≤ x ∧ x < m.int_buf + 11) → (x < b ∨ b + 24 ≤ x) → t.mem x = s.mem x := by
  obtain ⟨t, ht, htpc, htesp, htedi, htbytes, htmem⟩ := print_int_digits m s n hpc hsp hlow hn
  have hn32 : n < 2 ^ 32 := by
    rw [← hn]
    exact load32_lt _ _
  have hlen := decimal_length n hn32
  have hroom : m.int_buf + 12 < 2 ^ 32 := by
    have := m.bss_high
    unfold Image.int_buf
    omega
  obtain ⟨hinc, hrest⟩ := codeAt_cons.mp (pi_print_code m)
  obtain ⟨u, hu, huesp, huedi, humem⟩ : ∃ u, (.inc (.reg .edi) : Ins Label).effect t = some u ∧
      u.reg .esp = t.reg .esp ∧ u.reg .edi = t.reg .edi + 1 ∧ u.mem = t.mem := by
    simp (disch := omega) [Nat.mod_eq_of_lt]
  have hstep := step_effect (by rw [htpc]; exact hinc) hu
  rw [htpc] at hstep
  obtain ⟨v, hv, htrap⟩ := runs_trap SYS_PRINT 0x80 [.reg .edi] (u.goto ((program m).addr .pi_print + 1))
    (codeAt_append.mp (codeAt_append.mp hrest).1).1 (by decide)
    (by
      intro o ho
      rw [List.mem_singleton.mp ho]
      exact ⟨by decide, by rw [Core.goto_reg, huedi]; omega⟩)
    (by rw [Core.goto_reg, huesp, htesp]; simp) (by rw [Core.goto_reg, huesp, htesp]; omega)
  obtain ⟨hint, hvpc, hveax, hvesp, hvargs, hvmem⟩ := htrap
  rw [Core.goto_reg, huesp, htesp] at hvesp hvmem
  rw [Core.goto_mem, humem] at hvmem
  have hesp : v.reg .esp = b := by
    simp only [List.length_singleton] at hvesp
    omega
  have harg : load32 v.mem b = t.reg .edi + 1 := by
    have := hvargs 0 _ rfl
    rwa [hesp, Core.read, Core.goto_reg, huedi] at this
  rw [hesp] at hvmem
  refine ⟨v, runs_trans ht (runs_trans (runs_step hstep) hv), hint, hvpc, hveax, hesp, by omega, ?_, fun x h1 h2 => ?_⟩
  · rw [harg]
    exact (bytesAt_congr fun x h1 h2 => hvmem x (by omega)).mpr htbytes
  · rw [hvmem x (by omega), htmem x h1 (by omega)]

theorem print_int_returns (s : Core) (hpc : s.pc = (program m).addr .pi_print + 4) (hsp : s.reg .esp = b)
    (hhigh : b + 28 < 2 ^ 32) :
    ∃ t, Runs (program m) s t ∧ t.pc = load32 s.mem (b + 24) ∧ t.reg .esp = b + 28 ∧ t.mem = s.mem := by
  have hc1 := codeAt_part (pi_print_code m) 4 1
  have hc2 := codeAt_part (pi_print_code m) 5 6
  obtain ⟨t, ht, htesp, htmem⟩ : ∃ t, effects (pops 4) s = some t ∧ t.reg .esp = b + 4 ∧ t.mem = s.mem := by
    simp (disch := omega) [pops, hsp, Nat.mod_eq_of_lt]
  have hrun := runs_block (by rw [hpc]; exact hc1) ht
  rw [hpc] at hrun
  obtain ⟨u, hu, hupc, huesp, humem, -⟩ := runs_epilogue [.ebx, .edx, .ecx, .edi, .ebp]
    (t.goto ((program m).addr .pi_print + 5)) hc2 (by decide) (by rw [Core.goto_reg, htesp]; simp; omega)
  rw [Core.goto_reg, Core.goto_mem, htesp, htmem] at hupc
  rw [Core.goto_reg, htesp] at huesp
  exact ⟨u, runs_trans hrun hu, hupc, huesp, by rw [humem, Core.goto_mem, htmem]⟩

end PeachOS.Shell
