import PeachOS.Spec.Shell

/-!
# The routines of the shell

`memzero`, `str_startswith` and `build_path`, each from its entry to its return. `b` is the lowest address of the stack
that the routine uses.
-/

open PeachOS.Lib.Asm

namespace PeachOS.Shell

variable (m : Image) {s : Core} {b : Nat}

theorem label_code (l : Label) : (program m).CodeAt ((program m).addr l) (codeOf m l) := by
  refine codeAt_block ?_ ?_
  · have hfst : (program m).blocks.map Prod.fst = Label.all := by
      rw [program, List.map_map]
      exact List.map_id _
    rw [hfst]
    decide
  · rw [program]
    exact List.mem_map.mpr ⟨l, by cases l <;> decide, rfl⟩

/-! ## `memzero` -/

theorem memzero_returns (buf len : Nat) (hpc : s.pc = (program m).addr .memzero) (hsp : s.reg .esp = b + 8)
    (hbuf : b + 20 ≤ buf) (hroom : buf + len < 2 ^ 32) (ha : load32 s.mem (b + 12) = buf)
    (hl : load32 s.mem (b + 16) = len) :
    ∃ t, Runs (program m) s t ∧ Returns s t 8 (fun x => buf ≤ x ∧ x < buf + len) ∧
      ∀ x, buf ≤ x → x < buf + len → t.mem x = 0 := by
  have hc : (program m).CodeAt s.pc code_memzero := by
    rw [hpc]
    exact label_code m _
  obtain ⟨hc1, hc2⟩ := (codeAt_append (v := code_memzero.take 6) (w := code_memzero.drop 6)).mp hc
  obtain ⟨hstos, hc3⟩ := codeAt_cons.mp hc2
  -- the frame, and the registers of the string store
  obtain ⟨t, ht, hesp, hedi, hecx, heax, hmem⟩ : ∃ t, effects (code_memzero.take 6) s = some t ∧
      t.reg .esp = b ∧ t.reg .edi = buf ∧ t.reg .ecx = len ∧ t.reg .eax = 0 ∧
      t.mem = store32 (store32 s.mem (b + 4) (s.reg .ebp)) b (s.reg .edi) := by
    simp (disch := omega) [code_memzero, hsp, sub32_of_le, Nat.mod_eq_of_lt, load32_store32_out, ha, hl]
  have hframe : ∀ x, (x < b ∨ b + 8 ≤ x) → t.mem x = s.mem x := by
    intro x hx
    rw [hmem, store32_out _ _ _ _ (by omega), store32_out _ _ _ _ (by omega)]
  have hruns := runs_block hc1 ht
  obtain ⟨w, hw⟩ : ∃ w, t.goto (s.pc + (code_memzero.take 6).length) = w := ⟨_, rfl⟩
  have hwmem : w.mem = t.mem := by rw [← hw, Core.goto_mem]
  have hwreg : w.reg = t.reg := by rw [← hw, Core.goto_reg]
  have hwpc : w.pc = s.pc + (code_memzero.take 6).length := by rw [← hw, Core.goto_pc]
  rw [hw] at hruns
  obtain ⟨u, hu, hupc, huregs, humem⟩ := runs_stosb len w (by rw [hwpc]; exact hstos) (by rw [hwreg, hecx]) (by omega)
    (by rw [hwreg, hedi]; exact hroom)
  rw [hwreg, hedi, heax, hwmem] at humem
  have huesp : u.reg .esp = b := by rw [huregs .esp (by decide) (by decide), hwreg, hesp]
  -- the frame is taken down
  obtain ⟨v, hv, hvpc, hvesp, hvmem, -⟩ := runs_epilogue [.edi, .ebp] u (by rw [hupc, hwpc]; exact hc3) (by decide)
    (by rw [huesp]; simp; omega)
  rw [huesp] at hvpc hvesp
  refine ⟨v, runs_trans hruns (runs_trans hu hv), ⟨?_, ?_, ?_⟩, ?_⟩
  · rw [hvpc, Core.top, hsp]
    refine load32_congr _ _ (b + 8) fun x h1 h2 => ?_
    rw [humem, if_neg (by omega), hframe x (by omega)]
  · rw [hvesp, hsp]
    rfl
  · intro x hx hout
    rw [hvmem, humem, if_neg hx, hframe x (by omega)]
  · intro x h1 h2
    rw [hvmem, humem, if_pos ⟨h1, h2⟩]
    rfl

/-! ## `str_startswith` -/

theorem sw_loop_code : (program m).CodeAt ((program m).addr .sw_loop) code_sw_loop :=
  label_code m _

theorem sw_loop_char (s : Core) (hpc : s.pc = (program m).addr .sw_loop) (hedi : s.reg .edi < 2 ^ 32) :
    ∃ t, Runs (program m) s t ∧ t.reg .esp = s.reg .esp ∧ t.reg .esi = s.reg .esi ∧ t.reg .edi = s.reg .edi ∧
      t.mem = s.mem ∧ UInt8.ofNat (t.reg .eax) = s.mem (s.reg .edi) ∧
      t.pc = if s.mem (s.reg .edi) = 0 then (program m).addr .sw_match else (program m).addr .sw_loop + 3 := by
  have hc := codeAt_part (sw_loop_code m) 0 3
  obtain ⟨t, ht, hesp, hesi, hedi', hmem, heax, hflags⟩ : ∃ t, effects (code_sw_loop.take 2) s = some t ∧
      t.reg .esp = s.reg .esp ∧ t.reg .esi = s.reg .esi ∧ t.reg .edi = s.reg .edi ∧ t.mem = s.mem ∧
      UInt8.ofNat (t.reg .eax) = s.mem (s.reg .edi) ∧
      t.flags = logicFlags (0x1000000 * (s.mem (s.reg .edi) &&& s.mem (s.reg .edi)).toNat) := by
    simp (disch := omega) [code_sw_loop, Nat.mod_eq_of_lt]
  refine ⟨_, runs_cond (w := code_sw_loop.take 2) (by rw [hpc]; exact hc) ht, hesp, hesi, hedi', hmem, heax, ?_⟩
  rw [Core.goto_pc, hflags, holds_z_testb, hpc]
  simp only [decide_eq_true_eq]
  rfl

theorem sw_loop_compare (s : Core) (hpc : s.pc = (program m).addr .sw_loop + 3) (hedi : s.reg .edi + 1 < 2 ^ 32)
    (hesi : s.reg .esi + 1 < 2 ^ 32) :
    ∃ t, Runs (program m) s t ∧ t.reg .esp = s.reg .esp ∧ t.mem = s.mem ∧
      (UInt8.ofNat (s.reg .eax) = s.mem (s.reg .esi) → t.pc = (program m).addr .sw_loop ∧
        t.reg .esi = s.reg .esi + 1 ∧ t.reg .edi = s.reg .edi + 1) ∧
      (UInt8.ofNat (s.reg .eax) ≠ s.mem (s.reg .esi) → t.pc = (program m).addr .sw_no) := by
  have hc1 := codeAt_part (sw_loop_code m) 3 3
  have hc2 := codeAt_part (sw_loop_code m) 6 3
  rw [← hpc] at hc1
  obtain ⟨t, ht, hesp, hesi', hedi', hmem, hflags⟩ : ∃ t, effects ((code_sw_loop.drop 3).take 2) s = some t ∧
      t.reg .esp = s.reg .esp ∧ t.reg .esi = s.reg .esi ∧ t.reg .edi = s.reg .edi ∧ t.mem = s.mem ∧
      t.flags = subFlags8 (UInt8.ofNat (s.reg .eax)).toNat (s.mem (s.reg .esi)).toNat := by
    simp (disch := omega) [code_sw_loop, Nat.mod_eq_of_lt]
  have hrun := runs_cond (w := (code_sw_loop.drop 3).take 2) hc1 ht
  rw [hflags, holds_nz_sub8] at hrun
  by_cases heq : UInt8.ofNat (s.reg .eax) = s.mem (s.reg .esi)
  · obtain ⟨u, hu⟩ : ∃ u, t.goto ((program m).addr .sw_loop + 6) = u := ⟨_, rfl⟩
    rw [decide_eq_true heq, Bool.not_true, if_neg Bool.false_ne_true, hpc] at hrun
    have hnext : ∃ v, effects ((code_sw_loop.drop 6).take 2) u = some v ∧ v.reg .esp = u.reg .esp ∧ v.mem = u.mem ∧
        v.reg .esi = u.reg .esi + 1 ∧ v.reg .edi = u.reg .edi + 1 := by
      have h1 : u.reg .esi + 1 < 2 ^ 32 := by rw [← hu, Core.goto_reg, hesi']; exact hesi
      have h2 : u.reg .edi + 1 < 2 ^ 32 := by rw [← hu, Core.goto_reg, hedi']; exact hedi
      simp (disch := omega) [code_sw_loop, Nat.mod_eq_of_lt]
    obtain ⟨v, hv, hvesp, hvmem, hvesi, hvedi⟩ := hnext
    have hrun2 := runs_goto (s := u) (w := (code_sw_loop.drop 6).take 2) (by rw [← hu]; exact hc2) hv
    refine ⟨_, runs_trans hrun (hu ▸ hrun2), ?_, ?_, ?_, fun hne => absurd heq hne⟩
    · rw [Core.goto_reg, hvesp, ← hu, Core.goto_reg, hesp]
    · rw [Core.goto_mem, hvmem, ← hu, Core.goto_mem, hmem]
    · intro _
      rw [Core.goto_reg, hvesi, hvedi, ← hu, Core.goto_reg, hesi', hedi']
      exact ⟨rfl, rfl, rfl⟩
  · rw [decide_eq_false heq, Bool.not_false, if_pos rfl] at hrun
    exact ⟨_, hrun, hesp, hmem, fun h => absurd h heq, fun _ => rfl⟩

theorem sw_match_runs (s : Core) (hpc : s.pc = (program m).addr .sw_match) :
    ∃ t, Runs (program m) s t ∧ t.pc = (program m).addr .sw_done ∧ t.reg .esp = s.reg .esp ∧ t.mem = s.mem ∧
      t.reg .eax = 1 := by
  have hc : (program m).CodeAt s.pc ([.mov (.reg .eax) (.imm 1)] ++ [.jmp .sw_done]) := by
    rw [hpc]
    exact label_code m _
  obtain ⟨t, ht, hfacts⟩ : ∃ t, effects [(.mov (.reg .eax) (.imm 1) : Ins Label)] s = some t ∧
      t.reg .esp = s.reg .esp ∧ t.mem = s.mem ∧ t.reg .eax = 1 := by
    simp
  exact ⟨_, runs_goto hc ht, rfl, hfacts⟩

theorem addr_sw_done : (program m).addr .sw_done = (program m).addr .sw_no + 1 := by
  simp [program, Label.all, codeOf, Program.addr, offsetIn, code_sw_no, Nat.add_assoc]

theorem sw_no_runs (s : Core) (hpc : s.pc = (program m).addr .sw_no) :
    ∃ t, Runs (program m) s t ∧ t.pc = (program m).addr .sw_done ∧ t.reg .esp = s.reg .esp ∧ t.mem = s.mem ∧
      t.reg .eax = 0 := by
  have hc : (program m).CodeAt s.pc code_sw_no := by
    rw [hpc]
    exact label_code m _
  obtain ⟨t, ht, hfacts⟩ : ∃ t, effects code_sw_no s = some t ∧ t.reg .esp = s.reg .esp ∧ t.mem = s.mem ∧
      t.reg .eax = 0 := by
    simp [code_sw_no]
  refine ⟨_, runs_block hc ht, ?_, hfacts⟩
  rw [addr_sw_done, ← hpc]
  rfl

theorem sw_loop_runs (p : List UInt8) (s : Core) (hp : 0 ∉ p) (hpc : s.pc = (program m).addr .sw_loop)
    (hpre : BytesAt s.mem (s.reg .edi) (p ++ [0])) (hedi : s.reg .edi + p.length < 2 ^ 32)
    (hesi : s.reg .esi + p.length < 2 ^ 32) :
    ∃ t, Runs (program m) s t ∧ t.pc = (program m).addr .sw_done ∧ t.reg .esp = s.reg .esp ∧ t.mem = s.mem ∧
      t.reg .eax = if BytesAt s.mem (s.reg .esi) p then 1 else 0 := by
  -- on what is left of the string to be compared with
  induction p generalizing s with
  | nil =>
    obtain ⟨t, ht, hesp, -, -, hmem, -, htpc⟩ := sw_loop_char m s hpc (by simpa using hedi)
    rw [if_pos hpre.1] at htpc
    obtain ⟨u, hu, hupc, huesp, humem, hueax⟩ := sw_match_runs m t htpc
    refine ⟨u, runs_trans ht hu, hupc, by rw [huesp, hesp], by rw [humem, hmem], ?_⟩
    rw [hueax, if_pos]
    trivial
  | cons c p ih =>
    rw [List.length_cons] at hedi hesi
    rw [List.mem_cons, not_or] at hp
    obtain ⟨hc, hrest⟩ := hpre
    obtain ⟨t, ht, hesp, htesi, htedi, hmem, heax, htpc⟩ := sw_loop_char m s hpc (by omega)
    rw [if_neg (by rw [hc]; exact Ne.symm hp.1)] at htpc
    obtain ⟨u, hu, huesp, humem, hsame, hdiff⟩ := sw_loop_compare m t htpc (by omega) (by omega)
    rw [heax, hc, htesi, hmem] at hsame hdiff
    by_cases heq : c = s.mem (s.reg .esi)
    · obtain ⟨hupc, huesi, huedi⟩ := hsame heq
      rw [htedi] at huedi
      obtain ⟨v, hv, hvpc, hvesp, hvmem, hveax⟩ := ih u hp.2 hupc (by rw [humem, hmem, huedi]; exact hrest) (by omega)
        (by omega)
      refine ⟨v, runs_trans ht (runs_trans hu hv), hvpc, by rw [hvesp, huesp, hesp], by rw [hvmem, humem, hmem], ?_⟩
      rw [hveax, humem, hmem, huesi]
      simp only [BytesAt, heq, true_and]
    · obtain ⟨v, hv, hvpc, hvesp, hvmem, hveax⟩ := sw_no_runs m u (hdiff heq)
      refine ⟨v, runs_trans ht (runs_trans hu hv), hvpc, by rw [hvesp, huesp, hesp], by rw [hvmem, humem, hmem], ?_⟩
      rw [hveax, if_neg]
      exact fun h => heq h.1.symm

theorem addr_sw_loop : (program m).addr .sw_loop = (program m).addr .str_startswith + 6 := by
  simp [program, Label.all, codeOf, Program.addr, offsetIn, code_str_startswith, Nat.add_assoc]

theorem str_startswith_returns (buf a : Nat) (p : List UInt8) (hp : 0 ∉ p)
    (hpc : s.pc = (program m).addr .str_startswith) (hsp : s.reg .esp = b + 12) (htop : b + 24 < 2 ^ 32)
    (hbuf : load32 s.mem (b + 16) = buf) (ha : load32 s.mem (b + 20) = a) (hpre : BytesAt s.mem a (p ++ [0]))
    (hout : b + 12 ≤ a) (hbout : b + 12 ≤ buf) (ha32 : a + p.length < 2 ^ 32) (hbuf32 : buf + p.length < 2 ^ 32) :
    ∃ t, Runs (program m) s t ∧ Returns s t 12 (fun _ => False) ∧
      t.reg .eax = if BytesAt s.mem buf p then 1 else 0 := by
  have hc : (program m).CodeAt s.pc code_str_startswith := by
    rw [hpc]
    exact label_code m _
  have hdone : (program m).CodeAt ((program m).addr .sw_done) code_sw_done :=
    label_code m _
  obtain ⟨t, ht, hesp, hesi, hedi, hmem⟩ : ∃ t, effects code_str_startswith s = some t ∧ t.reg .esp = b ∧
      t.reg .esi = buf ∧ t.reg .edi = a ∧
      t.mem = store32 (store32 (store32 s.mem (b + 8) (s.reg .ebp)) (b + 4) (s.reg .esi)) b (s.reg .edi) := by
    simp (disch := omega) [code_str_startswith, hsp, sub32_of_le, Nat.mod_eq_of_lt, load32_store32_out, ha, hbuf]
  have hframe : ∀ x, (x < b ∨ b + 12 ≤ x) → t.mem x = s.mem x := by
    intro x hx
    rw [hmem, store32_out _ _ _ _ (by omega), store32_out _ _ _ _ (by omega), store32_out _ _ _ _ (by omega)]
  have hrun := runs_block hc ht
  obtain ⟨w, hw⟩ : ∃ w, t.goto (s.pc + code_str_startswith.length) = w := ⟨_, rfl⟩
  rw [hw] at hrun
  have hwreg : w.reg = t.reg := by rw [← hw, Core.goto_reg]
  have hwmem : w.mem = t.mem := by rw [← hw, Core.goto_mem]
  have hwpc : w.pc = (program m).addr .sw_loop := by
    rw [← hw, Core.goto_pc, hpc, addr_sw_loop]
    rfl
  obtain ⟨u, hu, hupc, huesp, humem, hueax⟩ := sw_loop_runs m p w hp hwpc
    (by
      rw [hwreg, hedi, hwmem]
      exact (bytesAt_congr fun x h1 _ => hframe x (by omega)).mpr hpre)
    (by rw [hwreg, hedi]; exact ha32) (by rw [hwreg, hesi]; exact hbuf32)
  rw [hwreg, hesp] at huesp
  rw [hwmem] at humem
  obtain ⟨v, hv, hvpc, hvesp, hvmem, hvregs⟩ :=
    runs_epilogue [.edi, .esi, .ebp] u (by rw [hupc]; exact hdone) (by decide) (by rw [huesp]; simp; omega)
  rw [huesp, humem] at hvpc
  rw [huesp] at hvesp
  refine ⟨v, runs_trans hrun (runs_trans hu hv), ⟨?_, ?_, ?_⟩, ?_⟩
  · rw [hvpc, Core.top, hsp]
    exact load32_congr _ _ (b + 12) fun x h1 _ => hframe x (by omega)
  · rw [hvesp, hsp]
    rfl
  · intro x _ hx
    rw [hvmem, humem, hframe x (by omega)]
  · have hsame : BytesAt t.mem buf p ↔ BytesAt s.mem buf p := bytesAt_congr fun x h1 _ => hframe x (by omega)
    rw [hvregs .eax (by decide) (by decide), hueax, hwreg, hesi, hwmem]
    simp only [hsame]

/-! ## `build_path` -/

/-- The characters that end a line. -/
def Ends (c : UInt8) : Prop := c = 0 ∨ c = 10 ∨ c = 13

instance : DecidablePred Ends := fun _ => inferInstanceAs (Decidable (_ ∨ _))

/-- At most `n` characters from `a` on, up to the end of the line. -/
def lineAt (mem : Nat → UInt8) : Nat → Nat → List UInt8
  | 0, _ => []
  | n + 1, a => if Ends (mem a) then [] else mem a :: lineAt mem n (a + 1)

theorem lineAt_length_le (mem : Nat → UInt8) (n a : Nat) : (lineAt mem n a).length ≤ n := by
  induction n generalizing a with
  | zero => exact Nat.le_refl 0
  | succ n ih =>
    unfold lineAt
    split
    · exact Nat.zero_le _
    · exact Nat.succ_le_succ (ih (a + 1))

theorem lineAt_congr {mem mem' : Nat → UInt8} (n a : Nat) (h : ∀ x, a ≤ x → x < a + n → mem' x = mem x) :
    lineAt mem' n a = lineAt mem n a := by
  induction n generalizing a with
  | zero => rfl
  | succ n ih =>
    unfold lineAt
    rw [h a (by omega) (by omega), ih (a + 1) fun x h1 h2 => h x (by omega) (by omega)]

theorem bp_loop_code : (program m).CodeAt ((program m).addr .bp_loop) code_bp_loop :=
  label_code m _

theorem addr_bp_end : (program m).addr .bp_end = (program m).addr .bp_loop + 12 := by
  simp [program, Label.all, codeOf, Program.addr, offsetIn, code_bp_loop, Nat.add_assoc]

theorem bp_loop_char (s : Core) (hpc : s.pc = (program m).addr .bp_loop) (hesi : s.reg .esi < 2 ^ 32) :
    ∃ t, Runs (program m) s t ∧ (∀ r, r ≠ .eax → t.reg r = s.reg r) ∧ t.mem = s.mem ∧
      UInt8.ofNat (t.reg .eax) = s.mem (s.reg .esi) ∧
      t.pc = if Ends (s.mem (s.reg .esi)) then (program m).addr .bp_end else (program m).addr .bp_loop + 7 := by
  have hc0 := codeAt_part (bp_loop_code m) 0 3
  have hc3 := codeAt_part (bp_loop_code m) 3 2
  have hc5 := codeAt_part (bp_loop_code m) 5 2
  obtain ⟨t, ht, hregs, hmem, heax, hflags⟩ : ∃ t, effects (code_bp_loop.take 2) s = some t ∧
      (∀ r, r ≠ .eax → t.reg r = s.reg r) ∧ t.mem = s.mem ∧ UInt8.ofNat (t.reg .eax) = s.mem (s.reg .esi) ∧
      t.flags = logicFlags (0x1000000 * (s.mem (s.reg .esi) &&& s.mem (s.reg .esi)).toNat) := by
    simp +contextual (disch := omega) [code_bp_loop, Nat.mod_eq_of_lt]
  have hrun := runs_cond (w := code_bp_loop.take 2) (by rw [hpc]; exact hc0) ht
  rw [hflags, holds_z_testb, hpc] at hrun
  by_cases h0 : s.mem (s.reg .esi) = 0
  · have hends : Ends (s.mem (s.reg .esi)) := Or.inl h0
    rw [if_pos hends]
    rw [decide_eq_true h0, if_pos rfl] at hrun
    exact ⟨_, hrun, hregs, hmem, heax, rfl⟩
  rw [decide_eq_false h0, if_neg Bool.false_ne_true] at hrun
  obtain ⟨u, hu, hureg, humem, hupc⟩ := runs_cmpb (s := t.goto ((program m).addr .bp_loop + 3)) hc3
  rw [Core.goto_reg] at hureg
  rw [Core.goto_mem, hmem] at humem
  rw [Core.goto_reg, heax, Core.goto_pc, show UInt8.ofNat 0x0A = 10 from rfl] at hupc
  have hrun2 := runs_trans hrun hu
  by_cases h10 : s.mem (s.reg .esi) = 10
  · have hends : Ends (s.mem (s.reg .esi)) := Or.inr (Or.inl h10)
    rw [if_pos hends]
    rw [if_pos h10] at hupc
    exact ⟨u, hrun2, by rw [hureg]; exact hregs, humem, by rw [hureg, heax], hupc⟩
  rw [if_neg h10] at hupc
  obtain ⟨v, hv, hvreg, hvmem, hvpc⟩ := runs_cmpb (s := u) (by rw [hupc]; exact hc5)
  rw [hureg] at hvreg
  rw [hureg, heax, hupc, show UInt8.ofNat 0x0D = 13 from rfl] at hvpc
  refine ⟨v, runs_trans hrun2 hv, by rw [hvreg]; exact hregs, by rw [hvmem, humem], by rw [hvreg, heax], ?_⟩
  rw [hvpc]
  by_cases h13 : s.mem (s.reg .esi) = 13
  · have hends : Ends (s.mem (s.reg .esi)) := Or.inr (Or.inr h13)
    rw [if_pos h13, if_pos hends]
  · have hgo : ¬ Ends (s.mem (s.reg .esi)) := by rintro (h | h | h) <;> contradiction
    rw [if_neg h13, if_neg hgo]

theorem bp_loop_copy (n : Nat) (s : Core) (hpc : s.pc = (program m).addr .bp_loop + 7) (hecx : s.reg .ecx = n + 1)
    (hn : n < 2 ^ 31) (hesi : s.reg .esi + 1 < 2 ^ 32) (hedi : s.reg .edi + 1 < 2 ^ 32) :
    ∃ t, Runs (program m) s t ∧ t.reg .esp = s.reg .esp ∧ t.reg .esi = s.reg .esi + 1 ∧ t.reg .edi = s.reg .edi + 1 ∧
      t.reg .ecx = n ∧ t.mem = storeByte s.mem (s.reg .edi) (UInt8.ofNat (s.reg .eax)) ∧
      t.pc = if n = 0 then (program m).addr .bp_end else (program m).addr .bp_loop := by
  have hc := codeAt_part (bp_loop_code m) 7 5
  obtain ⟨t, ht, hesp, hesi', hedi', hecx', hmem, hflags⟩ : ∃ t, effects ((code_bp_loop.drop 7).take 4) s = some t ∧
      t.reg .esp = s.reg .esp ∧ t.reg .esi = s.reg .esi + 1 ∧ t.reg .edi = s.reg .edi + 1 ∧ t.reg .ecx = n ∧
      t.mem = storeByte s.mem (s.reg .edi) (UInt8.ofNat (s.reg .eax)) ∧ t.flags = subFlags (n + 1) 1 := by
    simp (disch := omega) [code_bp_loop, hecx, sub32_of_le, Nat.mod_eq_of_lt]
  refine ⟨_, runs_cond (w := (code_bp_loop.drop 7).take 4) (by rw [hpc]; exact hc) ht, hesp, hesi', hedi', hecx', hmem,
    ?_⟩
  rw [Core.goto_pc, hflags, holds_nz_sub _ _ (by omega) (by omega), hpc, addr_bp_end]
  by_cases h0 : n = 0
  · simp [h0, code_bp_loop]
  · simp [h0]

theorem bp_loop_turn (n : Nat) (s : Core) (hpc : s.pc = (program m).addr .bp_loop) (hecx : s.reg .ecx = n + 1)
    (hn : n < 2 ^ 31) (hesi : s.reg .esi + 1 < 2 ^ 32) (hedi : s.reg .edi + 1 < 2 ^ 32) :
    ∃ t, Runs (program m) s t ∧ t.reg .esp = s.reg .esp ∧
      (Ends (s.mem (s.reg .esi)) → t.pc = (program m).addr .bp_end ∧ t.reg .edi = s.reg .edi ∧ t.mem = s.mem) ∧
      (¬ Ends (s.mem (s.reg .esi)) → t.reg .esi = s.reg .esi + 1 ∧ t.reg .edi = s.reg .edi + 1 ∧ t.reg .ecx = n ∧
        t.mem = storeByte s.mem (s.reg .edi) (s.mem (s.reg .esi)) ∧
        t.pc = if n = 0 then (program m).addr .bp_end else (program m).addr .bp_loop) := by
  obtain ⟨t, ht, hregs, hmem, heax, htpc⟩ := bp_loop_char m s hpc (by omega)
  split at htpc
  · rename_i hstop
    exact ⟨t, ht, hregs _ (by decide), fun _ => ⟨htpc, hregs _ (by decide), hmem⟩, fun h => absurd hstop h⟩
  · rename_i hgo
    obtain ⟨u, hu, huesp, huesi, huedi, huecx, humem, hupc⟩ := bp_loop_copy m n t htpc
      (by rw [hregs _ (by decide), hecx]) hn (by rw [hregs _ (by decide)]; omega) (by rw [hregs _ (by decide)]; omega)
    rw [hregs _ (by decide), heax, hmem] at humem
    rw [hregs _ (by decide)] at huesp huesi huedi
    exact ⟨u, runs_trans ht hu, huesp, fun h => absurd h hgo, fun _ => ⟨huesi, huedi, huecx, humem, hupc⟩⟩

theorem bp_loop_runs (n : Nat) (s : Core) (hpc : s.pc = (program m).addr .bp_loop) (hecx : s.reg .ecx = n + 1)
    (hn : n < 2 ^ 31) (hesi : s.reg .esi + n + 1 < 2 ^ 32) (hedi : s.reg .edi + n + 1 < 2 ^ 32)
    (hapart : s.reg .esi + n + 1 ≤ s.reg .edi) :
    ∃ t, Runs (program m) s t ∧ t.pc = (program m).addr .bp_end ∧ t.reg .esp = s.reg .esp ∧
      t.reg .edi = s.reg .edi + (lineAt s.mem (n + 1) (s.reg .esi)).length ∧
      BytesAt t.mem (s.reg .edi) (lineAt s.mem (n + 1) (s.reg .esi)) ∧
      ∀ x, (x < s.reg .edi ∨ s.reg .edi + (lineAt s.mem (n + 1) (s.reg .esi)).length ≤ x) → t.mem x = s.mem x := by
  -- on the room that is left in the buffer
  induction n generalizing s with
  | zero =>
    obtain ⟨t, ht, hesp, hstop, hgo⟩ := bp_loop_turn m 0 s hpc hecx hn (by omega) (by omega)
    by_cases hends : Ends (s.mem (s.reg .esi))
    · obtain ⟨htpc, htedi, htmem⟩ := hstop hends
      rw [lineAt, if_pos hends]
      exact ⟨t, ht, htpc, hesp, htedi, trivial, fun x _ => by rw [htmem]⟩
    · obtain ⟨-, htedi, -, htmem, htpc⟩ := hgo hends
      rw [lineAt, if_neg hends]
      refine ⟨t, ht, htpc, hesp, htedi, ⟨by rw [htmem, storeByte_same], trivial⟩, fun x hx => ?_⟩
      rw [List.length_cons] at hx
      rw [htmem, storeByte_out _ _ _ _ (by omega)]
  | succ n ih =>
    obtain ⟨t, ht, hesp, hstop, hgo⟩ := bp_loop_turn m (n + 1) s hpc hecx hn (by omega) (by omega)
    by_cases hends : Ends (s.mem (s.reg .esi))
    · obtain ⟨htpc, htedi, htmem⟩ := hstop hends
      rw [lineAt, if_pos hends]
      exact ⟨t, ht, htpc, hesp, htedi, trivial, fun x _ => by rw [htmem]⟩
    · obtain ⟨htesi, htedi, htecx, htmem, htpc⟩ := hgo hends
      rw [if_neg (Nat.succ_ne_zero n)] at htpc
      obtain ⟨u, hu, hupc, huesp, huedi, hubytes, humem⟩ := ih t htpc htecx (by omega) (by omega) (by omega) (by omega)
      have hline : lineAt t.mem (n + 1) (t.reg .esi) = lineAt s.mem (n + 1) (s.reg .esi + 1) := by
        rw [htesi, htmem]
        exact lineAt_congr _ _ fun x h1 h2 => storeByte_out _ _ _ _ (by omega)
      rw [hline, htedi] at huedi hubytes humem
      rw [lineAt, if_neg hends]
      refine ⟨u, runs_trans ht hu, hupc, by rw [huesp, hesp], ?_, ⟨?_, hubytes⟩, fun x hx => ?_⟩
      · rw [huedi, List.length_cons]
        omega
      · rw [humem _ (by omega), htmem, storeByte_same]
      · rw [List.length_cons] at hx
        rw [humem x (by omega), htmem, storeByte_out _ _ _ _ (by omega)]

theorem addr_bp_loop : (program m).addr .bp_loop = (program m).addr .build_path + 12 := by
  simp [program, Label.all, codeOf, Program.addr, offsetIn, code_build_path, Nat.add_assoc]

theorem build_path_returns (src : Nat) (hpc : s.pc = (program m).addr .build_path) (hsp : s.reg .esp = b + 16)
    (hsrc : load32 s.mem (b + 20) = src) (hlow : b + 24 ≤ src) (happ : src + 124 ≤ m.path_buf) :
    ∃ t, Runs (program m) s t ∧ Returns s t 16 (fun x => m.path_buf ≤ x ∧ x < m.path_buf + 128) ∧
      BytesAt t.mem m.path_buf (ascii "0:/" ++ lineAt s.mem 124 src ++ [0]) := by
  have hroom : m.path_buf + 128 < 2 ^ 31 := by
    have := m.bss_high
    unfold Image.path_buf
    omega
  have hc : (program m).CodeAt s.pc (code_build_path m) := by
    rw [hpc]
    exact label_code m _
  have hend : (program m).CodeAt ((program m).addr .bp_end) code_bp_end :=
    label_code m _
  obtain ⟨t, ht, hesp, hesi, hedi, hecx, hmem⟩ : ∃ t, effects (code_build_path m) s = some t ∧ t.reg .esp = b ∧
      t.reg .esi = src ∧ t.reg .edi = m.path_buf + 3 ∧ t.reg .ecx = 123 + 1 ∧
      t.mem = storeByte (storeByte (storeByte (store32 (store32 (store32 (store32 s.mem
        (b + 12) (s.reg .ebp)) (b + 8) (s.reg .esi)) (b + 4) (s.reg .edi)) b (s.reg .ecx))
        m.path_buf 0x30) (m.path_buf + 1) 0x3A) (m.path_buf + 2) 0x2F := by
    simp (disch := omega)
      [code_build_path, hsp, sub32_of_le, Nat.mod_eq_of_lt, load32_store32_out, load32_storeByte_out, hsrc]
  have hframe : ∀ x, ¬ (m.path_buf ≤ x ∧ x < m.path_buf + 3) → (x < b ∨ b + 16 ≤ x) → t.mem x = s.mem x := by
    intro x h1 h2
    rw [hmem, storeByte_out _ _ _ _ (by omega), storeByte_out _ _ _ _ (by omega), storeByte_out _ _ _ _ (by omega),
      store32_out _ _ _ _ (by omega), store32_out _ _ _ _ (by omega), store32_out _ _ _ _ (by omega),
      store32_out _ _ _ _ (by omega)]
  have hdrive : BytesAt t.mem m.path_buf (ascii "0:/") := by
    rw [hmem]
    refine ⟨?_, ?_, storeByte_same _ _ _, trivial⟩
    · rw [storeByte_out _ _ _ _ (by omega), storeByte_out _ _ _ _ (by omega), storeByte_same]
      rfl
    · rw [storeByte_out _ _ _ _ (by omega), storeByte_same]
      rfl
  have hline : lineAt t.mem 124 src = lineAt s.mem 124 src :=
    lineAt_congr _ _ fun x h1 h2 => hframe x (by omega) (by omega)
  have hlen := lineAt_length_le s.mem 124 src
  have hrun := runs_block hc ht
  obtain ⟨w, hw⟩ : ∃ w, t.goto (s.pc + (code_build_path m).length) = w := ⟨_, rfl⟩
  rw [hw] at hrun
  have hwreg : w.reg = t.reg := by rw [← hw, Core.goto_reg]
  have hwmem : w.mem = t.mem := by rw [← hw, Core.goto_mem]
  have hwpc : w.pc = (program m).addr .bp_loop := by
    rw [← hw, Core.goto_pc, hpc, addr_bp_loop]
    rfl
  obtain ⟨u, hu, hupc, huesp, huedi, hubytes, humem⟩ := bp_loop_runs m 123 w hwpc (by rw [hwreg, hecx]) (by omega)
    (by rw [hwreg, hesi]; omega) (by rw [hwreg, hedi]; omega) (by rw [hwreg, hesi, hedi]; omega)
  rw [hwreg, hesi, hedi, hwmem, hline] at huedi hubytes humem
  rw [hwreg, hesp] at huesp
  -- the NUL, and the frame is taken down
  obtain ⟨hnul, hpops⟩ := codeAt_cons.mp hend
  obtain ⟨v, hv, hvreg, hvmem⟩ : ∃ v, (.movb (.mem ⟨some .edi, 0⟩) (.imm 0) : Ins Label).effect u = some v ∧
      v.reg = u.reg ∧ v.mem = storeByte u.mem (u.reg .edi) 0 := by
    simp (disch := omega) [Nat.mod_eq_of_lt]
  have hstep := step_effect (by rw [hupc]; exact hnul) hv
  rw [hupc] at hstep
  obtain ⟨z, hz, hzpc, hzesp, hzmem, -⟩ := runs_epilogue [.ecx, .edi, .esi, .ebp] (v.goto _) hpops (by decide)
    (by rw [Core.goto_reg, hvreg, huesp]; simp; omega)
  rw [Core.goto_reg, Core.goto_mem, hvreg, huesp, hvmem, huedi] at hzpc
  rw [Core.goto_reg, hvreg, huesp] at hzesp
  rw [Core.goto_mem, hvmem, huedi] at hzmem
  refine ⟨z, runs_trans hrun (runs_trans hu (runs_trans (runs_step hstep) hz)), ⟨?_, ?_, ?_⟩, ?_⟩
  · rw [hzpc, Core.top, hsp]
    refine load32_congr _ _ (b + 16) fun x h1 h2 => ?_
    rw [storeByte_out _ _ _ _ (by omega), humem x (by omega), hframe x (by omega) (by omega)]
  · rw [hzesp, hsp]
    rfl
  · intro x hx hout
    rw [hzmem, storeByte_out _ _ _ _ (by omega), humem x (by omega), hframe x (by omega) (by omega)]
  · have hdrive3 : (ascii "0:/").length = 3 := rfl
    rw [hzmem, bytesAt_append, bytesAt_append, List.length_append, hdrive3]
    refine ⟨⟨?_, ?_⟩, ?_, trivial⟩
    · refine (bytesAt_congr fun x h1 h2 => ?_).mpr hdrive
      rw [hdrive3] at h2
      rw [storeByte_out _ _ _ _ (by omega), humem x (by omega)]
    · exact (bytesAt_congr fun x h1 h2 => storeByte_out _ _ _ _ (by omega)).mpr hubytes
    · rw [← Nat.add_assoc, storeByte_same]

end PeachOS.Shell
