import PeachOS.Lib.Asm
import Mathlib.Logic.Relation
import Mathlib.Data.List.Infix

/-!
# Reasoning about assembly

A block of plain instructions is one step, from its code and its effect. Jumps, calls and returns have a rule each, and
runs are composed. What a routine leaves alone is in `Returns`.
-/

namespace PeachOS.Lib.Asm

variable {Label : Type} {P : Program Label}

/-! ## Code -/

theorem codeAt_nil (a : Nat) : P.CodeAt a [] := List.nil_prefix

theorem codeAt_cons {a : Nat} {i : Ins Label} {is : List (Ins Label)} :
    P.CodeAt a (i :: is) ↔ P.code[a]? = some i ∧ P.CodeAt (a + 1) is := by
  unfold Program.CodeAt
  rw [← List.drop_drop]
  cases hd : P.code.drop a with
  | nil =>
    have hnone : P.code[a]? = none := by
      rw [← List.head?_drop, hd]
      rfl
    simp [hnone]
  | cons j js =>
    have hsome : P.code[a]? = some j := by
      rw [← List.head?_drop, hd]
      rfl
    rw [hsome, List.cons_prefix_cons, Option.some.injEq, eq_comm]
    rfl

theorem codeAt_append {a : Nat} {v w : List (Ins Label)} :
    P.CodeAt a (v ++ w) ↔ P.CodeAt a v ∧ P.CodeAt (a + v.length) w := by
  induction v generalizing a with
  | nil => simp [codeAt_nil]
  | cons i v ih =>
    rw [List.cons_append, codeAt_cons, codeAt_cons, ih, and_assoc, List.length_cons, Nat.add_assoc, Nat.add_comm 1]

theorem codeAt_part {a : Nat} {is : List (Ins Label)} (h : P.CodeAt a is) (n k : Nat) :
    P.CodeAt (a + n) ((is.drop n).take k) := by
  have hdrop : P.CodeAt (a + n) (is.drop n) := by
    unfold Program.CodeAt at h ⊢
    rw [← List.drop_drop]
    exact List.IsPrefix.drop h n
  exact (List.take_prefix k _).trans hdrop

/-! ## Effects -/

/-- The instructions one after the other. -/
def effects : List (Ins Label) → Core → Option Core
  | [], s => some s
  | i :: is, s => (i.effect s).bind (effects is)

theorem effect_goto (i : Ins Label) (s : Core) (a : Nat) : i.effect (s.goto a) = (i.effect s).map (·.goto a) := by
  have hread : ∀ o, (s.goto a).read o = s.read o := by
    intro o
    cases o <;> simp only [Core.read, Core.ea, Core.goto_reg, Core.goto_mem]
  have hreadb : ∀ o, (s.goto a).readb o = s.readb o := by
    intro o
    cases o <;> simp only [Core.readb, Core.ea, Core.goto_reg, Core.goto_mem]
  have hwrite : ∀ v d, (s.goto a).write v d = (s.write v d).map (·.goto a) := by
    intro v d
    cases d <;> simp only [Core.write, Core.ea, Core.goto_reg, Core.goto_mem, Core.goto_setReg, Core.goto_setMem,
      Option.map_some, Option.map_none]
  have hwriteb : ∀ b d, (s.goto a).writeb b d = (s.writeb b d).map (·.goto a) := by
    intro b d
    cases d <;> simp only [Core.writeb, Core.ea, Core.goto_reg, Core.goto_mem, Core.goto_setReg, Core.goto_setMem,
      Option.map_some, Option.map_none]
  have hflags :
      ∀ (o : Option Core) f, (o.map (·.goto a)).map (·.setFlags f) = (o.map (·.setFlags f)).map (·.goto a) := by
    intro o f
    cases o <;> rfl
  cases i with
  | div o =>
    simp only [Ins.effect, hread, Core.goto_reg, Core.goto_setReg]
    split
    · rw [Option.map_none]
    · rw [Option.map_some]
  | mov | movb | add | addb | inc | dec | xor | or | shr =>
    simp only [Ins.effect, hwrite, hwriteb, hread, hreadb, hflags]
  | test | testb | cmp | cmpb => simp only [Ins.effect, hread, hreadb, Core.goto_setFlags, Option.map_some]
  | push =>
    simp only [Ins.effect, hread, Core.push, Core.goto_reg, Core.goto_mem, Core.goto_setMem, Core.goto_setReg,
      Option.map_some]
  | lea =>
    simp only [Ins.effect, Core.ea, Core.goto_reg, Core.goto_setReg, Option.map_some]
  | pop =>
    simp only [Ins.effect, Core.drop, Core.top, Core.goto_reg, Core.goto_mem, Core.goto_setReg, Option.map_some]
  | jmp | jcc | loop | call | ret | rep_stosb | int | in_al_dx | out_dx_al | rep_insw => rfl

theorem effects_goto (is : List (Ins Label)) (s : Core) (a : Nat) :
    effects is (s.goto a) = (effects is s).map (·.goto a) := by
  induction is generalizing s with
  | nil => rfl
  | cons i is ih =>
    simp only [effects, effect_goto]
    cases i.effect s with
    | none => rfl
    | some t => exact ih t

section
variable [DecidableEq Label]

theorem prefix_of_mem (l : Label) (is : List (Ins Label)) (bs : List (Label × List (Ins Label)))
    (hn : (bs.map Prod.fst).Nodup) (h : (l, is) ∈ bs) : is <+: (bs.flatMap Prod.snd).drop (offsetIn l bs) := by
  induction bs with
  | nil => cases h
  | cons b bs ih =>
    rw [List.map_cons, List.nodup_cons] at hn
    unfold offsetIn
    rw [List.flatMap_cons]
    rcases List.mem_cons.mp h with rfl | h
    · simp
    · have hne : b.1 ≠ l := by
        rintro rfl
        exact hn.1 (List.mem_map.mpr ⟨_, h, rfl⟩)
      rw [if_neg hne, List.drop_append, List.drop_eq_nil_of_le (Nat.le_add_right _ _), Nat.add_sub_cancel_left,
        List.nil_append]
      exact ih hn.2 h

theorem codeAt_block {l : Label} {is : List (Ins Label)} (hn : (P.blocks.map Prod.fst).Nodup) (h : (l, is) ∈ P.blocks) :
    P.CodeAt (P.addr l) is := prefix_of_mem l is P.blocks hn h

/-! ## Runs -/

/-- The program goes from `s` to `t` with no event in between. -/
def Runs (P : Program Label) : Core → Core → Prop := Relation.ReflTransGen fun s t => P.step s = .next t

theorem runs_refl (s : Core) : Runs P s s := Relation.ReflTransGen.refl

theorem runs_trans {s t u : Core} (h : Runs P s t) (h' : Runs P t u) : Runs P s u := Relation.ReflTransGen.trans h h'

theorem runs_step {s t : Core} (h : P.step s = .next t) : Runs P s t := Relation.ReflTransGen.single h

theorem runs_unique {s t u : Core} (ht : Runs P s t) (hu : Runs P s u) (het : ∀ v, P.step t ≠ .next v)
    (heu : ∀ v, P.step u ≠ .next v) : t = u := by
  induction ht using Relation.ReflTransGen.head_induction_on with
  | refl =>
    rcases Relation.ReflTransGen.cases_head hu with rfl | ⟨v, hv, -⟩
    · rfl
    · exact absurd hv (het v)
  | head hstep _ ih =>
    rcases Relation.ReflTransGen.cases_head hu with rfl | ⟨v, hv, hrest⟩
    · exact absurd hstep (heu _)
    · rw [hstep, Outcome.next.injEq] at hv
      subst hv
      exact ih hrest

theorem step_effect {s t : Core} {i : Ins Label} (hc : P.code[s.pc]? = some i) (h : i.effect s = some t) :
    P.step s = .next (t.goto (s.pc + 1)) := by
  unfold Program.step
  rw [hc]
  cases i <;> first | (dsimp only; rw [h]) | cases h

theorem runs_block {is : List (Ins Label)} {s t : Core} (hc : P.CodeAt s.pc is) (h : effects is s = some t) :
    Runs P s (t.goto (s.pc + is.length)) := by
  induction is generalizing s t with
  | nil =>
    cases h
    exact runs_refl s
  | cons i is ih =>
    obtain ⟨hi, his⟩ := codeAt_cons.mp hc
    obtain ⟨u, hu, hrest⟩ := Option.bind_eq_some_iff.mp h
    refine runs_trans (runs_step (step_effect hi hu)) ?_
    have hgoto : effects is (u.goto (s.pc + 1)) = some (t.goto (s.pc + 1)) := by
      rw [effects_goto, hrest, Option.map_some]
    have := ih his hgoto
    rw [Core.goto_goto, Core.goto_pc, Nat.add_assoc, Nat.add_comm 1] at this
    exact this

section
variable {s t : Core} {l : Label} {w : List (Ins Label)}

theorem runs_jmp (hc : P.code[s.pc]? = some (.jmp l)) : Runs P s (s.goto (P.addr l)) := by
  apply runs_step
  unfold Program.step
  rw [hc]

theorem runs_taken {c : Cond} (hc : P.code[s.pc]? = some (.jcc c l)) (h : c.holds s.flags = true) :
    Runs P s (s.goto (P.addr l)) := by
  apply runs_step
  unfold Program.step
  rw [hc]
  simp only [h, if_true]

theorem runs_not_taken {c : Cond} (hc : P.code[s.pc]? = some (.jcc c l)) (h : c.holds s.flags = false) :
    Runs P s (s.goto (s.pc + 1)) := by
  apply runs_step
  unfold Program.step
  rw [hc]
  simp only [h, Bool.false_eq_true, if_false]

theorem runs_goto (hc : P.CodeAt s.pc (w ++ [.jmp l])) (h : effects w s = some t) : Runs P s (t.goto (P.addr l)) := by
  obtain ⟨hblock, hjmp⟩ := codeAt_append.mp hc
  exact runs_trans (runs_block hblock h) (runs_jmp (codeAt_cons.mp hjmp).1)

theorem runs_cond {c : Cond} (hc : P.CodeAt s.pc (w ++ [.jcc c l])) (h : effects w s = some t) :
    Runs P s (t.goto (if c.holds t.flags then P.addr l else s.pc + (w.length + 1))) := by
  obtain ⟨hblock, hjcc⟩ := codeAt_append.mp hc
  have hrun := runs_block hblock h
  split
  · rename_i hcond
    exact runs_trans hrun (runs_taken (codeAt_cons.mp hjcc).1 hcond)
  · rename_i hcond
    exact runs_trans hrun (runs_not_taken (codeAt_cons.mp hjcc).1 (Bool.not_eq_true _ ▸ hcond))

theorem runs_call (hc : P.code[s.pc]? = some (.call l)) : Runs P s ((s.push (s.pc + 1)).goto (P.addr l)) := by
  apply runs_step
  unfold Program.step
  rw [hc]

theorem runs_ret (hc : P.code[s.pc]? = some .ret) : Runs P s (s.drop.goto s.top) := by
  apply runs_step
  unfold Program.step
  rw [hc]

theorem step_int {n : Nat} (hc : P.code[s.pc]? = some (.int n)) : P.step s = .int n (s.goto (s.pc + 1)) := by
  unfold Program.step
  rw [hc]

end

theorem runs_stosb (n : Nat) (s : Core) (hc : P.code[s.pc]? = some .rep_stosb) (hn : s.reg .ecx = n) (hn32 : n < 2 ^ 32)
    (hroom : s.reg .edi + n < 2 ^ 32) :
    ∃ t, Runs P s t ∧ t.pc = s.pc + 1 ∧ (∀ r, r ≠ .ecx → r ≠ .edi → t.reg r = s.reg r) ∧
      ∀ x, t.mem x = if s.reg .edi ≤ x ∧ x < s.reg .edi + n then UInt8.ofNat (s.reg .eax) else s.mem x := by
  induction n generalizing s with
  | zero =>
    refine ⟨s.goto (s.pc + 1), runs_step ?_, rfl, fun _ _ _ => rfl, fun x => (if_neg (by omega)).symm⟩
    unfold Program.step
    rw [hc]
    simp only [hn, if_true]
  | succ n ih =>
    obtain ⟨u, hu⟩ : ∃ u, u = ((s.setMem (storeByte s.mem (s.reg .edi) (UInt8.ofNat (s.reg .eax)))).setReg .edi
      ((s.reg .edi + 1) % 2 ^ 32)).setReg .ecx (sub32 (s.reg .ecx) 1) := ⟨_, rfl⟩
    have hstep : P.step s = .next u := by
      unfold Program.step
      rw [hc, hu]
      simp only [hn, Nat.add_one_ne_zero, if_false]
    have hcx : u.reg .ecx = n := by
      simp only [hu, Core.setReg_reg, if_true, hn, sub32]
      omega
    have hdi : u.reg .edi = s.reg .edi + 1 := by
      simp only [hu, Core.setReg_reg, reduceCtorEq, if_false, if_true]
      omega
    have hpc : u.pc = s.pc := by rw [hu]; rfl
    obtain ⟨t, hruns, htpc, hregs, hmem⟩ := ih u (by rw [hpc]; exact hc) hcx (by omega) (by omega)
    refine ⟨t, runs_trans (runs_step hstep) hruns, by rw [htpc, hpc], ?_, ?_⟩
    · intro r h1 h2
      rw [hregs r h1 h2, hu]
      simp only [Core.setReg_reg, if_neg h1, if_neg h2, Core.setMem_reg]
    · intro x
      have hax : u.reg .eax = s.reg .eax := by
        rw [hu]
        simp only [Core.setReg_reg, reduceCtorEq, if_false, Core.setMem_reg]
      rw [hmem, hdi, hax]
      have hum : u.mem = storeByte s.mem (s.reg .edi) (UInt8.ofNat (s.reg .eax)) := by rw [hu]; rfl
      rw [hum]
      by_cases hx : x = s.reg .edi
      · rw [if_neg (by omega), if_pos (by omega), hx, storeByte_same]
      · rw [storeByte_out _ _ _ _ hx]
        by_cases hin : s.reg .edi + 1 ≤ x ∧ x < s.reg .edi + 1 + n
        · rw [if_pos hin, if_pos (by omega)]
        · rw [if_neg hin, if_neg (by omega)]

end

/-! ## Flags -/

theorem sub32_of_le (a b : Nat) (h : b ≤ a) (ha : a < 2 ^ 32) : sub32 a b = a - b := by
  unfold sub32
  omega

@[simp] theorem holds_z_logic (v : Nat) : Cond.z.holds (logicFlags v) = decide (v = 0) := rfl

@[simp] theorem holds_nz_logic (v : Nat) : Cond.nz.holds (logicFlags v) = !decide (v = 0) := rfl

@[simp] theorem holds_s_logic (v : Nat) : Cond.s.holds (logicFlags v) = neg32 v := rfl

theorem holds_l_logic (v : Nat) : Cond.l.holds (logicFlags v) = neg32 v := by
  simp [Cond.holds, logicFlags]

theorem holds_le_logic (v : Nat) : Cond.le.holds (logicFlags v) = (decide (v = 0) || neg32 v) := by
  simp [Cond.holds, logicFlags]

theorem zf_sub (a b : Nat) (ha : a < 2 ^ 32) (hb : b < 2 ^ 32) : (subFlags a b).zf = decide (a = b) := by
  unfold subFlags sub32
  dsimp only
  rw [decide_eq_decide]
  omega

theorem holds_z_sub (a b : Nat) (ha : a < 2 ^ 32) (hb : b < 2 ^ 32) : Cond.z.holds (subFlags a b) = decide (a = b) :=
  zf_sub a b ha hb

theorem holds_nz_sub (a b : Nat) (ha : a < 2 ^ 32) (hb : b < 2 ^ 32) : Cond.nz.holds (subFlags a b) = !decide (a = b) :=
  congrArg Bool.not (zf_sub a b ha hb)

theorem holds_z_sub8 (a b : UInt8) : Cond.z.holds (subFlags8 a.toNat b.toNat) = decide (a = b) := by
  have ha := a.toNat_lt
  have hb := b.toNat_lt
  unfold subFlags8
  rw [holds_z_sub _ _ (by omega) (by omega), decide_eq_decide, ← UInt8.toNat_inj]
  omega

theorem holds_nz_sub8 (a b : UInt8) : Cond.nz.holds (subFlags8 a.toNat b.toNat) = !decide (a = b) :=
  congrArg Bool.not (holds_z_sub8 a b)

@[simp] theorem low_byte (v : Nat) (b : UInt8) : UInt8.ofNat (v / 0x100 * 0x100 + b.toNat) = b := by
  have hb := b.toNat_lt
  apply UInt8.toNat_inj.mp
  rw [UInt8.toNat_ofNat']
  omega

theorem holds_z_testb (b : UInt8) : Cond.z.holds (logicFlags (0x1000000 * (b &&& b).toNat)) = decide (b = 0) := by
  have h0 : (0 : UInt8).toNat = 0 := rfl
  rw [UInt8.and_self, holds_z_logic, decide_eq_decide, ← UInt8.toNat_inj]
  omega

theorem holds_l_sub_zero (a : Nat) (ha : a < 2 ^ 32) : Cond.l.holds (subFlags a 0) = neg32 a := by
  have hv : sub32 a 0 = a := sub32_of_le a 0 (Nat.zero_le a) ha
  simp [Cond.holds, subFlags, hv]

section
variable [DecidableEq Label] {s : Core} {l : Label} {r : Gpr}

theorem runs_test {c : Cond} (hc : P.CodeAt s.pc [.test (.reg r) (.reg r), .jcc c l]) :
    ∃ t, Runs P s t ∧ t.reg = s.reg ∧ t.mem = s.mem ∧ t.flags = logicFlags (s.reg r) ∧
      t.pc = if c.holds (logicFlags (s.reg r)) then P.addr l else s.pc + 2 := by
  have heff : effects [(.test (.reg r) (.reg r) : Ins Label)] s = some (s.setFlags (logicFlags (s.reg r))) := by
    simp only [effects, Ins.effect, Core.read, Nat.and_self, Option.bind_some]
  exact ⟨_, runs_cond hc heff, rfl, rfl, rfl, rfl⟩

theorem runs_cmpb {n : Nat} (hc : P.CodeAt s.pc [.cmpb (.reg r) (.imm n), .jcc .z l]) :
    ∃ t, Runs P s t ∧ t.reg = s.reg ∧ t.mem = s.mem ∧
      t.pc = if UInt8.ofNat (s.reg r) = UInt8.ofNat n then P.addr l else s.pc + 2 := by
  have heff : effects [(.cmpb (.reg r) (.imm n) : Ins Label)] s =
      some (s.setFlags (subFlags8 (UInt8.ofNat (s.reg r)).toNat (UInt8.ofNat n).toNat)) := by
    simp only [effects, Ins.effect, Core.readb, Option.bind_some]
  refine ⟨_, runs_cond hc heff, rfl, rfl, ?_⟩
  rw [Core.goto_pc, Core.setFlags_flags, holds_z_sub8]
  simp only [decide_eq_true_eq]
  rfl

end

/-! ## Symbolic execution

With these, `simp` computes the effect of a block. Differences of addresses go through `sub32_of_le`, with `omega` for
the bound. -/

attribute [simp] effects Ins.effect Core.push Core.top Core.drop Core.read Core.readb Core.write Core.writeb Core.ea

/-! ## The stack -/

/-- The value of the operand is a word that a push does not change. -/
def Steady (s : Core) : Operand → Prop
  | .imm _ => True
  | .reg r => r ≠ .esp ∧ s.reg r < 2 ^ 32
  | .mem a => a.base = none ∧ s.reg .esp ≤ a.disp ∧ a.disp < 2 ^ 32

theorem read_lt (s : Core) (o : Operand) (h : Steady s o) : s.read o < 2 ^ 32 := by
  cases o with
  | imm n => exact Nat.mod_lt _ (by decide)
  | reg r => exact h.2
  | mem a => exact load32_lt _ _

theorem steady_later {s t : Core} {o : Operand} (h : Steady s o) (hesp : t.reg .esp ≤ s.reg .esp)
    (hregs : ∀ r, r ≠ .esp → t.reg r = s.reg r) (hmem : ∀ x, s.reg .esp ≤ x → t.mem x = s.mem x) :
    Steady t o ∧ t.read o = s.read o := by
  cases o with
  | imm n => exact ⟨trivial, rfl⟩
  | reg r => exact ⟨⟨h.1, by rw [hregs r h.1]; exact h.2⟩, hregs r h.1⟩
  | mem a =>
    obtain ⟨base, disp⟩ := a
    obtain ⟨hbase, hle, hlt⟩ := h
    dsimp only at hbase hle hlt
    subst hbase
    refine ⟨⟨rfl, hesp.trans hle, hlt⟩, ?_⟩
    have hea : ∀ u : Core, u.ea ⟨none, disp⟩ = disp := by
      intro u
      simp only [Core.ea, Option.elim_none, Nat.zero_add]
      exact Nat.mod_eq_of_lt hlt
    simp only [Core.read, hea]
    exact load32_congr _ _ _ fun x hx _ => hmem x (by omega)

/-- The operands are on the stack, the last one on top, and the rest is as before. -/
structure Pushed (s t : Core) (os : List Operand) : Prop where
  esp : t.reg .esp + 4 * os.length = s.reg .esp
  regs : ∀ r, r ≠ .esp → t.reg r = s.reg r
  values : ∀ i o, os[i]? = some o → load32 t.mem (s.reg .esp - 4 * (i + 1)) = s.read o
  mem : ∀ x, (x < t.reg .esp ∨ s.reg .esp ≤ x) → t.mem x = s.mem x
  pc : t.pc = s.pc

variable (Label) in
theorem effects_pushes (os : List Operand) (s : Core) (hs : ∀ o ∈ os, Steady s o) (hroom : 4 * os.length ≤ s.reg .esp)
    (hlt : s.reg .esp < 2 ^ 32) : ∃ t, effects (os.map (.push : Operand → Ins Label)) s = some t ∧ Pushed s t os := by
  induction os generalizing s with
  | nil => exact ⟨s, rfl, rfl, fun _ _ => rfl, by simp, fun _ _ => rfl, rfl⟩
  | cons o os ih =>
    rw [List.length_cons] at hroom
    obtain ⟨u, hu⟩ : ∃ u, u = s.push (s.read o) := ⟨_, rfl⟩
    have hsub : sub32 (s.reg .esp) 4 = s.reg .esp - 4 := sub32_of_le _ _ (by omega) hlt
    have huesp : u.reg .esp = s.reg .esp - 4 := by
      rw [hu]
      simp only [Core.push, Core.setReg_reg, if_true, hsub]
    have huregs : ∀ r, r ≠ .esp → u.reg r = s.reg r := by
      intro r hr
      rw [hu]
      simp only [Core.push, Core.setReg_reg, if_neg hr, Core.setMem_reg]
    have humem : u.mem = store32 s.mem (s.reg .esp - 4) (s.read o) := by
      rw [hu]
      simp only [Core.push, Core.setReg_mem, Core.setMem_mem, hsub]
    have hupc : u.pc = s.pc := by
      rw [hu]
      simp only [Core.push, Core.setReg_pc, Core.setMem_pc]
    have habove : ∀ x, s.reg .esp ≤ x → u.mem x = s.mem x := fun x hx => by
      rw [humem]
      exact store32_out _ _ _ _ (by omega)
    have hsteady : ∀ o' ∈ os, Steady u o' ∧ u.read o' = s.read o' := fun o' ho' =>
      steady_later (hs o' (List.mem_cons_of_mem o ho')) (by omega) huregs habove
    obtain ⟨t, ht, hesp, hregs, hvalues, hmem, hpc⟩ := ih u (fun o' ho' => (hsteady o' ho').1) (by omega) (by omega)
    refine ⟨t, ?_, ?_, ?_, ?_, ?_, ?_⟩
    · rw [List.map_cons, effects, Ins.effect, ← hu, Option.bind_some]
      exact ht
    · rw [List.length_cons]
      omega
    · intro r hr
      rw [hregs r hr, huregs r hr]
    · intro i o' hi
      cases i with
      | zero =>
        obtain rfl : o = o' := by simpa using hi
        have hkept : load32 t.mem (s.reg .esp - 4) = load32 u.mem (s.reg .esp - 4) :=
          load32_congr _ _ _ fun x hx _ => hmem x (by omega)
        rw [Nat.zero_add, Nat.mul_one, hkept, humem, load32_store32 _ _ _ (read_lt s o (hs o (List.mem_cons_self)))]
      | succ i =>
        have hplace : s.reg .esp - 4 * (i + 1 + 1) = s.reg .esp - 4 - 4 * (i + 1) := by omega
        rw [hplace, ← huesp, hvalues i o' hi]
        exact (hsteady o' (List.mem_of_getElem? hi)).2
    · intro x hx
      rw [hmem x (by omega), humem]
      exact store32_out _ _ _ _ (by omega)
    · rw [hpc, hupc]

variable (Label) in
theorem effects_pops (rs : List Gpr) (s : Core) (hesp : .esp ∉ rs) (hroom : s.reg .esp + 4 * rs.length < 2 ^ 32) :
    ∃ t, effects (rs.map (.pop : Gpr → Ins Label)) s = some t ∧ t.reg .esp = s.reg .esp + 4 * rs.length ∧
      t.mem = s.mem ∧ ∀ r, r ≠ .esp → r ∉ rs → t.reg r = s.reg r := by
  induction rs generalizing s with
  | nil => exact ⟨s, rfl, rfl, rfl, fun _ _ _ => rfl⟩
  | cons r rs ih =>
    rw [List.mem_cons, not_or] at hesp
    rw [List.length_cons] at hroom
    obtain ⟨u, hu⟩ : ∃ u, u = s.drop.setReg r s.top := ⟨_, rfl⟩
    have huesp : u.reg .esp = s.reg .esp + 4 := by
      rw [hu]
      simp only [Core.setReg_reg, if_neg hesp.1, Core.drop, if_true]
      exact Nat.mod_eq_of_lt (by omega)
    have humem : u.mem = s.mem := by
      rw [hu]
      simp only [Core.setReg_mem, Core.drop]
    obtain ⟨t, ht, hte, htm, hregs⟩ := ih u hesp.2 (by omega)
    refine ⟨t, ?_, ?_, ?_, ?_⟩
    · rw [List.map_cons, effects, Ins.effect, ← hu, Option.bind_some]
      exact ht
    · rw [hte, huesp, List.length_cons]
      omega
    · rw [htm, humem]
    · intro r' hne hmem
      rw [List.mem_cons, not_or] at hmem
      rw [hregs r' hne hmem.2, hu]
      simp only [Core.setReg_reg, if_neg hmem.1, Core.drop, if_neg hne]

section
variable [DecidableEq Label]

theorem runs_epilogue (rs : List Gpr) (s : Core) (hc : P.CodeAt s.pc (rs.map .pop ++ [.ret])) (hesp : .esp ∉ rs)
    (hroom : s.reg .esp + 4 * rs.length + 4 < 2 ^ 32) :
    ∃ t, Runs P s t ∧ t.pc = load32 s.mem (s.reg .esp + 4 * rs.length) ∧
      t.reg .esp = s.reg .esp + 4 * rs.length + 4 ∧ t.mem = s.mem ∧
      ∀ r, r ≠ .esp → r ∉ rs → t.reg r = s.reg r := by
  obtain ⟨hpops, hret⟩ := codeAt_append.mp hc
  obtain ⟨u, hu, huesp, humem, huregs⟩ := effects_pops Label rs s hesp (by omega)
  have hrun := runs_ret (s := u.goto (s.pc + (rs.map (.pop : Gpr → Ins Label)).length)) (codeAt_cons.mp hret).1
  refine ⟨_, runs_trans (runs_block hpops hu) hrun, ?_, ?_, humem, ?_⟩
  · simp only [Core.goto_pc, Core.top, Core.goto_mem, Core.goto_reg, humem, huesp]
  · simp only [Core.goto_reg, Core.drop, Core.setReg_reg, if_true, huesp]
    exact Nat.mod_eq_of_lt hroom
  · intro r hr hnot
    simp only [Core.goto_reg, Core.drop, Core.setReg_reg, if_neg hr]
    exact huregs r hr hnot

/-- A software interrupt with its number in `eax` and its arguments on the stack. -/
structure Trap (P : Program Label) (s t : Core) (n k : Nat) (args : List Operand) : Prop where
  int : P.step t = .int k (t.goto (t.pc + 1))
  pc : t.pc = s.pc + args.length + 1
  eax : t.reg .eax = n
  esp : t.reg .esp + 4 * args.length = s.reg .esp
  args : ∀ i o, args[i]? = some o → load32 t.mem (t.reg .esp + 4 * i) = s.read o
  mem : ∀ x, (x < t.reg .esp ∨ s.reg .esp ≤ x) → t.mem x = s.mem x

theorem runs_trap (n k : Nat) (args : List Operand) (s : Core)
    (hc : P.CodeAt s.pc (args.reverse.map .push ++ [.mov (.reg .eax) (.imm n), .int k])) (hn : n < 2 ^ 32)
    (hs : ∀ o ∈ args, Steady s o) (hroom : 4 * args.length ≤ s.reg .esp) (hlt : s.reg .esp < 2 ^ 32) :
    ∃ t, Runs P s t ∧ Trap P s t n k args := by
  obtain ⟨hpush, hrest⟩ := codeAt_append.mp hc
  obtain ⟨hmov, hrest⟩ := codeAt_cons.mp hrest
  obtain ⟨u, hu, hp⟩ := effects_pushes Label args.reverse s (fun o ho => hs o (List.mem_reverse.mp ho))
    (by rw [List.length_reverse]; exact hroom) hlt
  have hesp := hp.esp
  rw [List.length_reverse] at hesp
  rw [List.length_map, List.length_reverse] at hmov hrest
  have hrun := runs_block hpush hu
  rw [List.length_map, List.length_reverse] at hrun
  have hset : (.mov (.reg .eax) (.imm n) : Ins Label).effect (u.goto (s.pc + args.length)) =
      some ((u.goto (s.pc + args.length)).setReg .eax n) := by
    simp only [Ins.effect, Core.read, Core.write, Nat.mod_eq_of_lt hn]
  refine ⟨_, runs_trans hrun (runs_step (step_effect hmov hset)), ?_, ?_, ?_, ?_, ?_, ?_⟩
  · apply step_int
    exact (codeAt_cons.mp hrest).1
  · rfl
  · simp only [Core.goto_reg, Core.setReg_reg, if_true]
  · simp only [Core.goto_reg, Core.setReg_reg, reduceCtorEq, if_false]
    exact hesp
  · intro i o hi
    have hi' := hi
    have hlen := (List.getElem?_eq_some_iff.mp hi).1
    rw [← List.reverse_reverse args, List.getElem?_reverse (by rw [List.length_reverse]; exact hlen),
      List.length_reverse] at hi'
    have hplace : u.reg .esp + 4 * i = s.reg .esp - 4 * (args.length - 1 - i + 1) := by omega
    simp only [Core.goto_reg, Core.setReg_reg, reduceCtorEq, if_false, Core.goto_mem, Core.setReg_mem]
    rw [hplace]
    exact hp.values _ o hi'
  · intro x hx
    simp only [Core.goto_reg, Core.setReg_reg, reduceCtorEq, if_false] at hx
    exact hp.mem x hx

end

/-! ## Strings -/

/-- The bytes are in memory from `a` on. -/
def BytesAt (mem : Nat → UInt8) : Nat → List UInt8 → Prop
  | _, [] => True
  | a, c :: l => mem a = c ∧ BytesAt mem (a + 1) l

instance decidableBytesAt (mem : Nat → UInt8) : (a : Nat) → (l : List UInt8) → Decidable (BytesAt mem a l)
  | _, [] => isTrue trivial
  | a, _ :: l =>
    have := decidableBytesAt mem (a + 1) l
    inferInstanceAs (Decidable (_ ∧ _))

theorem bytesAt_append (mem : Nat → UInt8) (a : Nat) (l l' : List UInt8) :
    BytesAt mem a (l ++ l') ↔ BytesAt mem a l ∧ BytesAt mem (a + l.length) l' := by
  induction l generalizing a with
  | nil => simp [BytesAt]
  | cons c l ih =>
    rw [List.cons_append, BytesAt, BytesAt, ih, and_assoc, List.length_cons, Nat.add_assoc, Nat.add_comm 1]

theorem bytesAt_iff (mem : Nat → UInt8) (a : Nat) (l : List UInt8) :
    BytesAt mem a l ↔ ∀ i < l.length, mem (a + i) = l.getD i 0 := by
  induction l generalizing a with
  | nil => simp [BytesAt]
  | cons c l ih =>
    rw [BytesAt, ih]
    constructor
    · rintro ⟨h0, h⟩ i hi
      cases i with
      | zero => exact h0
      | succ i =>
        rw [Nat.add_comm i 1, ← Nat.add_assoc]
        simpa [Nat.add_comm] using h i (by simpa using hi)
    · intro h
      refine ⟨h 0 (by simp), fun i hi => ?_⟩
      have := h (i + 1) (by simpa using hi)
      rwa [Nat.add_comm i 1, ← Nat.add_assoc, Nat.add_comm 1 i, List.getD_cons_succ] at this

theorem bytesAt_congr {mem mem' : Nat → UInt8} {a : Nat} {l : List UInt8}
    (h : ∀ x, a ≤ x → x < a + l.length → mem' x = mem x) : BytesAt mem' a l ↔ BytesAt mem a l := by
  rw [bytesAt_iff, bytesAt_iff]
  refine forall₂_congr fun i hi => ?_
  rw [h _ (by omega) (by omega)]

/-! ## Routines -/

/-- The routine that was entered in `s` has returned in `t`. It wrote only to the `depth` bytes below its stack and to
`own`. -/
structure Returns (s t : Core) (depth : Nat) (own : Nat → Prop) : Prop where
  pc : t.pc = s.top
  esp : t.reg .esp = s.reg .esp + 4
  mem : ∀ x, ¬ own x → (x + depth < s.reg .esp ∨ s.reg .esp ≤ x) → t.mem x = s.mem x

end PeachOS.Lib.Asm
