import PeachOS.Shell.Layout

/-!
# The shell between its system calls

On its own level the shell has nothing on the stack, and what it remembers is above the stack: that is `Sits`. A piece
of code between two calls goes from one such state to another, and at last to the next call, which is `Traps`.
-/

open PeachOS.Lib.Asm

namespace PeachOS.Shell

variable (m : Image)

/-! ## States -/

/-- The memory above the stack. -/
def above (mem : Nat → UInt8) : Nat → UInt8 := fun x => if 0x3FF000 ≤ x then mem x else 0

theorem above_apply {mem : Nat → UInt8} {x : Nat} (h : 0x3FF000 ≤ x) : above mem x = mem x := if_pos h

theorem above_congr {mem mem' : Nat → UInt8} (h : ∀ x, 0x3FF000 ≤ x → mem x = mem' x) : above mem = above mem' := by
  funext x
  unfold above
  split
  · rename_i hx
    exact h x hx
  · rfl

theorem above_store32 (mem : Nat → UInt8) (d v : Nat) (hd : 0x3FF000 ≤ d) :
    above (store32 mem d v) = store32 (above mem) d v := by
  funext x
  unfold above store32
  by_cases hx : d ≤ x ∧ x < d + 4
  · rw [if_pos hx, if_pos hx, if_pos (by omega)]
  · rw [if_neg hx, if_neg hx]

theorem load32_above (mem : Nat → UInt8) (d : Nat) (hd : 0x3FF000 ≤ d) : load32 (above mem) d = load32 mem d :=
  load32_congr _ _ _ fun x _ _ => above_apply (by omega)

/-- The shell is at place `k` of a block, with an empty stack. Above the stack, memory is `μ`. -/
structure Sits (l : Label) (k : Nat) (μ : Nat → UInt8) (s : Core) : Prop where
  pc : s.pc = (program m).addr l + k
  esp : s.reg .esp = 0x3FF000
  mem : above s.mem = μ

/-- The shell is at a system call with number `n` and arguments `args`. -/
structure Traps (l : Label) (k : Nat) (μ : Nat → UInt8) (n : Nat) (args : List Nat) (s : Core) : Prop where
  int : (program m).step s = .int 0x80 (s.goto (s.pc + 1))
  pc : s.pc = (program m).addr l + k
  eax : s.reg .eax = n
  esp : s.reg .esp + 4 * args.length = 0x3FF000
  args : ∀ i v, args[i]? = some v → arg s i = v
  mem : above s.mem = μ

/-- An argument of a call: a constant, or a variable. -/
def Fixed : Operand → Prop
  | .imm n => n < 2 ^ 32
  | .reg _ => False
  | .mem a => a.base = none ∧ 0x3FF000 ≤ a.disp ∧ a.disp < 2 ^ 32

def valueIn (μ : Nat → UInt8) : Operand → Nat
  | .imm n => n
  | .reg _ => 0
  | .mem a => load32 μ a.disp

variable {m} {l l' : Label} {k : Nat} {μ : Nat → UInt8} {s t : Core}

theorem fixed_steady {o : Operand} (hs : Sits m l k μ s) (ho : Fixed o) : Steady s o ∧ s.read o = valueIn μ o := by
  cases o with
  | imm n => exact ⟨trivial, Nat.mod_eq_of_lt ho⟩
  | reg r => exact absurd ho id
  | mem d =>
    obtain ⟨base, disp⟩ := d
    obtain ⟨rfl, hlow, hhigh⟩ := ho
    dsimp only at hlow hhigh
    refine ⟨⟨rfl, by rw [hs.esp]; exact hlow, hhigh⟩, ?_⟩
    have hea : s.ea ⟨none, disp⟩ = disp := by
      simp only [Core.ea, Option.elim_none, Nat.zero_add]
      exact Nat.mod_eq_of_lt hhigh
    rw [Core.read, hea, valueIn, ← hs.mem, load32_above _ _ hlow]

theorem sits_block {b : List (Ins Label)} (hs : Sits m l k μ s) (hc : (program m).CodeAt ((program m).addr l + k) b)
    (h : effects b s = some t) (hesp : t.reg .esp = s.reg .esp) :
    Runs (program m) s (t.goto ((program m).addr l + (k + b.length))) ∧
      Sits m l (k + b.length) (above t.mem) (t.goto ((program m).addr l + (k + b.length))) := by
  have hrun := runs_block (by rw [hs.pc]; exact hc) h
  rw [hs.pc, Nat.add_assoc] at hrun
  exact ⟨hrun, rfl, by rw [Core.goto_reg, hesp, hs.esp], rfl⟩

theorem sits_trap {n : Nat} (os : List Operand) (hs : Sits m l k μ s) (hc : (k, syscall n os) ∈ pieces m l)
    (hn : n < 2 ^ 32) (hos : ∀ o ∈ os, Fixed o) (hlen : os.length ≤ 3) :
    ∃ t, Runs (program m) s t ∧ Traps m l (k + os.length + 1) μ n (os.map (valueIn μ)) t := by
  obtain ⟨t, ht, htrap⟩ := runs_trap n 0x80 os s (by rw [hs.pc]; exact piece_code m hc) hn
    (fun o ho => (fixed_steady hs (hos o ho)).1) (by rw [hs.esp]; omega) (by rw [hs.esp]; omega)
  refine ⟨t, ht, htrap.int, by rw [htrap.pc, hs.pc]; omega, htrap.eax, ?_, ?_, ?_⟩
  · rw [List.length_map, htrap.esp, hs.esp]
  · intro i v hi
    rw [List.getElem?_map] at hi
    obtain ⟨o, ho, rfl⟩ := Option.map_eq_some_iff.mp hi
    exact (htrap.args i o ho).trans (fixed_steady hs (hos o (List.mem_of_getElem? ho))).2
  · rw [← hs.mem]
    exact above_congr fun x hx => htrap.mem x (Or.inr (by rw [hs.esp]; exact hx))

theorem sits_pops (n : Nat) (hpc : s.pc = (program m).addr l + k)
    (hc : (program m).CodeAt ((program m).addr l + k) (pops n)) (hesp : s.reg .esp + n = 0x3FF000) :
    ∃ t, Runs (program m) s t ∧ Sits m l (k + 1) (above s.mem) t ∧ t.reg .eax = s.reg .eax := by
  obtain ⟨t, ht, htesp, htmem, hteax⟩ : ∃ t, effects (pops n) s = some t ∧ t.reg .esp = 0x3FF000 ∧ t.mem = s.mem ∧
      t.reg .eax = s.reg .eax := by
    have hn : n % 4294967296 = n := Nat.mod_eq_of_lt (by omega)
    simp [pops, hn, hesp]
  have hrun := runs_block (by rw [hpc]; exact hc) ht
  rw [hpc, Nat.add_assoc] at hrun
  exact ⟨_, hrun, ⟨rfl, htesp, by rw [Core.goto_mem, htmem]⟩, hteax⟩

theorem sits_test (c : Cond) (l' : Label) (hs : Sits m l k μ s)
    (hc : (program m).CodeAt ((program m).addr l + k) [.test (.reg .eax) (.reg .eax), .jcc c l']) :
    ∃ t, Runs (program m) s t ∧ t.reg .eax = s.reg .eax ∧ t.flags = logicFlags (s.reg .eax) ∧
      (c.holds (logicFlags (s.reg .eax)) = true → Sits m l' 0 μ t) ∧
      (c.holds (logicFlags (s.reg .eax)) = false → Sits m l (k + 2) μ t) := by
  obtain ⟨t, ht, hreg, hmem, hflags, hpc⟩ := runs_test (by rw [hs.pc]; exact hc)
  have hesp : t.reg .esp = 0x3FF000 := by rw [hreg, hs.esp]
  have hmem' : above t.mem = μ := by rw [hmem, hs.mem]
  rw [hs.pc] at hpc
  refine ⟨t, ht, by rw [hreg], hflags, fun h => ⟨?_, hesp, hmem'⟩, fun h => ⟨?_, hesp, hmem'⟩⟩
  · rw [hpc, if_pos h]
    rfl
  · rw [hpc, if_neg (by rw [h]; exact Bool.false_ne_true), Nat.add_assoc]

theorem sits_cond {c : Cond} {b : List (Ins Label)} (l' : Label) (hs : Sits m l k μ s)
    (hc : (program m).CodeAt ((program m).addr l + k) (b ++ [.jcc c l'])) (h : effects b s = some t)
    (hesp : t.reg .esp = s.reg .esp) (hmem : t.mem = s.mem) :
    ∃ u, Runs (program m) s u ∧ u.reg = t.reg ∧ (c.holds t.flags = true → Sits m l' 0 μ u) ∧
      (c.holds t.flags = false → Sits m l (k + (b.length + 1)) μ u) := by
  have hrun := runs_cond (by rw [hs.pc]; exact hc) h
  rw [hs.pc] at hrun
  refine ⟨_, hrun, rfl, fun hcond => ⟨?_, by rw [Core.goto_reg, hesp, hs.esp], by rw [Core.goto_mem, hmem, hs.mem]⟩,
    fun hcond => ⟨?_, by rw [Core.goto_reg, hesp, hs.esp], by rw [Core.goto_mem, hmem, hs.mem]⟩⟩
  · rw [Core.goto_pc, if_pos hcond]
    rfl
  · rw [Core.goto_pc, if_neg (by rw [hcond]; exact Bool.false_ne_true), Nat.add_assoc]

theorem sits_keep {d : Nat} (hs : Sits m l k μ s) (hc : (k, [.mov (.mem ⟨none, d⟩) (.reg .eax)]) ∈ pieces m l)
    (hd : Fixed (.mem ⟨none, d⟩)) :
    ∃ t, Runs (program m) s t ∧ Sits m l (k + 1) (store32 μ d (s.reg .eax)) t := by
  obtain ⟨-, hlow, hhigh⟩ := hd
  dsimp only at hlow hhigh
  obtain ⟨t, ht, htreg, htmem⟩ : ∃ t, effects [(.mov (.mem ⟨none, d⟩) (.reg .eax) : Ins Label)] s = some t ∧
      t.reg = s.reg ∧ t.mem = store32 s.mem d (s.reg .eax) := by
    simp (disch := omega) [Nat.mod_eq_of_lt]
  obtain ⟨hrun, hsits⟩ := sits_block hs (piece_code m hc) ht (by rw [htreg])
  rw [htmem, above_store32 _ _ _ hlow, hs.mem] at hsits
  exact ⟨_, hrun, hsits⟩

theorem sits_enter (os : List Operand) (hs : Sits m l k μ s)
    (hc : (program m).CodeAt ((program m).addr l + k) (os.reverse.map .push ++ [.call l'])) (hos : ∀ o ∈ os, Steady s o)
    (hlen : os.length ≤ 3) :
    ∃ t, Runs (program m) s t ∧ t.pc = (program m).addr l' ∧ t.reg .esp + 4 * (os.length + 1) = 0x3FF000 ∧
      t.top = (program m).addr l + (k + os.length + 1) ∧
      (∀ i o, os[i]? = some o → load32 t.mem (t.reg .esp + 4 * (i + 1)) = s.read o) ∧ above t.mem = μ := by
  obtain ⟨hpush, hcall⟩ := codeAt_append.mp hc
  obtain ⟨u, hu, hp⟩ := effects_pushes Label os.reverse s (fun o ho => hos o (List.mem_reverse.mp ho))
    (by rw [List.length_reverse, hs.esp]; omega) (by rw [hs.esp]; omega)
  have hesp := hp.esp
  rw [List.length_reverse, hs.esp] at hesp
  rw [List.length_map, List.length_reverse] at hcall
  have hrun := runs_block (by rw [hs.pc]; exact hpush) hu
  rw [List.length_map, List.length_reverse, hs.pc] at hrun
  have ha := addr_lt m hcall
  obtain ⟨a, hplace⟩ : ∃ a, a = (program m).addr l + k + os.length := ⟨_, rfl⟩
  rw [← hplace] at hrun hcall ha
  have hrun2 := runs_trans hrun (runs_call (s := u.goto a) (codeAt_cons.mp hcall).1)
  have hsub : sub32 (u.reg .esp) 4 = u.reg .esp - 4 := sub32_of_le _ _ (by omega) (by omega)
  obtain ⟨t, ht⟩ : ∃ t, t = ((u.goto a).push (a + 1)).goto ((program m).addr l') := ⟨_, rfl⟩
  have htesp : t.reg .esp = u.reg .esp - 4 := by
    rw [ht]
    simp only [Core.push, Core.goto_reg, Core.setReg_reg, if_true, hsub]
  have htmem : t.mem = store32 u.mem (u.reg .esp - 4) (a + 1) := by
    rw [ht]
    simp only [Core.push, Core.goto_mem, Core.setReg_mem, Core.setMem_mem, Core.goto_reg, hsub]
  rw [Core.goto_pc, ← ht] at hrun2
  refine ⟨t, hrun2, by rw [ht, Core.goto_pc], by omega, ?_, ?_, ?_⟩
  · rw [Core.top, htesp, htmem, load32_store32 _ _ _ (by omega)]
    omega
  · intro i o hi
    have hi' := hi
    have hlt := (List.getElem?_eq_some_iff.mp hi).1
    rw [← List.reverse_reverse os, List.getElem?_reverse (by rw [List.length_reverse]; exact hlt),
      List.length_reverse] at hi'
    have hat : t.reg .esp + 4 * (i + 1) = s.reg .esp - 4 * (os.length - 1 - i + 1) := by
      rw [hs.esp]
      omega
    rw [htmem, load32_store32_out _ _ _ _ (by omega), hat]
    exact hp.values _ o hi'
  · rw [← hs.mem]
    refine above_congr fun x hx => ?_
    rw [htmem, store32_out _ _ _ _ (by omega), hp.mem x (Or.inr (by rw [hs.esp]; exact hx))]

/-! ## Routines -/

theorem image_room (m : Image) : 0x400000 ≤ m.bss ∧ m.bss + 800 ≤ 0x80000000 :=
  ⟨m.data_low.trans (by have := m.data_bss; omega), m.bss_high⟩

theorem sits_memzero {buf len : Nat} (hs : Sits m l k μ s)
    (hc : (k, [.push (.imm len), .push (.imm buf), .call .memzero]) ∈ pieces m l) (hc' : (k + 3, pops 8) ∈ pieces m l)
    (hbuf : 0x400000 ≤ buf) (hroom : buf + len < 2 ^ 32) :
    ∃ t ν, Runs (program m) s t ∧ Sits m l (k + 4) ν t ∧ ∀ x, ν x = if buf ≤ x ∧ x < buf + len then 0 else μ x := by
  obtain ⟨t, ht, htpc, htesp, httop, htargs, htmem⟩ := sits_enter [.imm buf, .imm len] hs (piece_code m hc)
    (by simp [Steady]) (by simp)
  have hb : t.reg .esp = 0x3FEFEC + 8 := by
    simp only [List.length_cons, List.length_nil] at htesp
    omega
  have hargs0 := htargs 0 _ rfl
  have hargs1 := htargs 1 _ rfl
  rw [hb] at hargs0 hargs1
  simp only [Core.read] at hargs0 hargs1
  rw [Nat.mod_eq_of_lt (by omega)] at hargs0 hargs1
  obtain ⟨u, hu, hret, hzero⟩ := memzero_returns m buf len htpc hb (by omega) hroom hargs0 hargs1
  obtain ⟨v, hv, hsits, -⟩ := sits_pops 8 (hret.pc.trans httop) (piece_code m hc') (by rw [hret.esp, hb])
  refine ⟨v, _, runs_trans ht (runs_trans hu hv), hsits, fun x => ?_⟩
  rw [← htmem]
  unfold above
  split
  · rename_i hx
    split
    · rename_i hin
      exact hzero x hin.1 hin.2
    · rename_i hin
      exact hret.mem x hin (by omega)
  · rw [if_neg (by omega)]

theorem sits_dispatch (t : Text) (l' : Label) (hs : Sits m l k μ s) (hc : (k, dispatch m t l') ∈ pieces m l)
    (hpre : BytesAt μ (m.text t) (t.chars ++ [0])) (hnul : 0 ∉ t.chars) (hshort : t.chars.length ≤ 100)
    (hlow : 0x400000 ≤ m.text t) (hhigh : m.text t + 100 < 2 ^ 32) :
    ∃ u, Runs (program m) s u ∧ (BytesAt μ m.cmd_buf t.chars → Sits m l' 0 μ u) ∧
      (¬ BytesAt μ m.cmd_buf t.chars → Sits m l (k + 6) μ u) := by
  obtain ⟨hbss, hbss'⟩ := image_room m
  have hpiece := piece_code m hc
  have hc0 : (program m).CodeAt ((program m).addr l + k)
      [.push (.imm (m.text t)), .push (.imm m.cmd_buf), .call .str_startswith] := codeAt_part hpiece 0 3
  have hc3 : (program m).CodeAt ((program m).addr l + (k + 3)) (pops 8) := by
    rw [← Nat.add_assoc]
    exact codeAt_part hpiece 3 1
  have hc4 : (program m).CodeAt ((program m).addr l + (k + 4)) [.test (.reg .eax) (.reg .eax), .jcc .nz l'] := by
    rw [← Nat.add_assoc]
    exact codeAt_part hpiece 4 2
  obtain ⟨w, hw, hwpc, hwesp, hwtop, hwargs, hwmem⟩ := sits_enter [.imm m.cmd_buf, .imm (m.text t)] hs hc0
    (by simp [Steady]) (by simp)
  have hb : w.reg .esp = 0x3FEFE8 + 12 := by
    simp only [List.length_cons, List.length_nil] at hwesp
    omega
  have hargs0 := hwargs 0 _ rfl
  have hargs1 := hwargs 1 _ rfl
  rw [hb] at hargs0 hargs1
  simp only [Core.read] at hargs0 hargs1
  have hcmd : m.cmd_buf = m.bss := rfl
  rw [Nat.mod_eq_of_lt (by omega)] at hargs0 hargs1
  have hsame : ∀ x, 0x3FF000 ≤ x → w.mem x = μ x := by
    intro x hx
    rw [← hwmem, above_apply hx]
  obtain ⟨v, hv, hret, heax⟩ :=
    str_startswith_returns m m.cmd_buf (m.text t) t.chars hnul hwpc hb (by omega) hargs0 hargs1
    ((bytesAt_congr fun x h1 _ => hsame x (by omega)).mpr hpre) (by omega) (by omega) (by omega) (by omega)
  have hbuf : BytesAt w.mem m.cmd_buf t.chars ↔ BytesAt μ m.cmd_buf t.chars :=
    bytesAt_congr fun x h1 _ => hsame x (by omega)
  simp only [hbuf] at heax
  have hvmem : above v.mem = μ := by
    rw [← hwmem]
    exact above_congr fun x hx => hret.mem x id (by omega)
  obtain ⟨z, hz, hsits, hzeax⟩ := sits_pops 8 (hret.pc.trans hwtop) hc3 (by rw [hret.esp, hb])
  rw [hvmem] at hsits
  obtain ⟨u, hu, -, -, hyes, hno⟩ := sits_test .nz l' hsits hc4
  rw [hzeax, heax, holds_nz_logic] at hyes hno
  exact ⟨u, runs_trans hw (runs_trans hv (runs_trans hz hu)), fun h => hyes (by rw [if_pos h]; rfl),
    fun h => hno (by rw [if_neg h]; rfl)⟩

theorem sits_pathOf {n : Nat} (hs : Sits m l k μ s) (hc : (k, pathOf m n) ∈ pieces m l) (hn : n ≤ 12) :
    ∃ t ν, Runs (program m) s t ∧ Sits m l (k + 4) ν t ∧
      BytesAt ν m.path_buf (ascii "0:/" ++ lineAt μ 124 (m.cmd_buf + n) ++ [0]) ∧
      ∀ x, ¬ (m.path_buf ≤ x ∧ x < m.path_buf + 128) → ν x = μ x := by
  obtain ⟨hbss, hbss'⟩ := image_room m
  have hcmd : m.cmd_buf = m.bss := rfl
  have hpath : m.path_buf = m.bss + 136 := rfl
  have hpiece := piece_code m hc
  have hc0 : (program m).CodeAt ((program m).addr l + k) [.lea .eax ⟨none, m.cmd_buf + n⟩] := codeAt_part hpiece 0 1
  have hc1 : (program m).CodeAt ((program m).addr l + (k + 1)) [.push (.reg .eax), .call .build_path] := by
    rw [← Nat.add_assoc]
    exact codeAt_part hpiece 1 2
  have hc3 : (program m).CodeAt ((program m).addr l + (k + 3)) (pops 4) := by
    rw [← Nat.add_assoc]
    exact codeAt_part hpiece 3 1
  obtain ⟨t, ht, hteax, htesp, htmem⟩ : ∃ t, effects [(.lea .eax ⟨none, m.cmd_buf + n⟩ : Ins Label)] s = some t ∧
      t.reg .eax = m.cmd_buf + n ∧ t.reg .esp = s.reg .esp ∧ t.mem = s.mem := by
    simp (disch := omega) [Nat.mod_eq_of_lt]
  obtain ⟨hrun, hlea⟩ := sits_block hs hc0 ht htesp
  rw [htmem, hs.mem] at hlea
  obtain ⟨w, hw, hwpc, hwesp, hwtop, hwargs, hwmem⟩ := sits_enter [.reg .eax] hlea hc1
    (by simp only [List.mem_singleton, forall_eq, Steady, Core.goto_reg, hteax]; exact ⟨by decide, by omega⟩) (by simp)
  have hb : w.reg .esp = 0x3FEFE8 + 16 := by
    simp only [List.length_cons, List.length_nil] at hwesp
    omega
  have hargs0 := hwargs 0 _ rfl
  rw [hb, Core.read, Core.goto_reg, hteax] at hargs0
  have hsame : ∀ x, 0x3FF000 ≤ x → w.mem x = μ x := by
    intro x hx
    rw [← hwmem, above_apply hx]
  obtain ⟨v, hv, hret, hbytes⟩ := build_path_returns m (m.cmd_buf + n) hwpc hb hargs0 (by omega) (by omega)
  have hline : lineAt w.mem 124 (m.cmd_buf + n) = lineAt μ 124 (m.cmd_buf + n) :=
    lineAt_congr _ _ fun x h1 _ => hsame x (by omega)
  rw [hline] at hbytes
  obtain ⟨z, hz, hsits, -⟩ := sits_pops 4 (hret.pc.trans hwtop) hc3 (by rw [hret.esp, hb])
  refine ⟨z, _, runs_trans hrun (runs_trans hw (runs_trans hv hz)), hsits, ?_, fun x hx => ?_⟩
  · exact (bytesAt_congr fun x h1 _ => above_apply (by omega)).mpr hbytes
  · rw [← hwmem]
    unfold above
    split
    · exact hret.mem x hx (by omega)
    · rfl

end PeachOS.Shell
