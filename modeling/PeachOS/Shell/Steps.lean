import PeachOS.Shell.Points

/-!
# From one system call to the next

For each point and each reply, the program runs to the call of the point that `Point.reply` gives.
-/

open PeachOS.Lib.Asm

namespace PeachOS.Shell

variable {m : Image} {p : Point} {s t : Core} {r : Reply} {l : Label} {μ ν : Nat → UInt8}

/-! ## Operands -/

@[simp] theorem fixed_imm (n : Nat) : Fixed (.imm n) ↔ n < 4294967296 := Iff.rfl

@[simp] theorem text_lt (t : Text) : m.text t < 4294967296 := by
  have h1 := text_room m t
  have h2 := image_room m
  omega

theorem buffer_lt (m : Image) (n : Nat) (hn : n ≤ 800) : m.bss + n < 4294967296 := by
  have := image_room m
  omega

@[simp] theorem cmd_buf_lt : m.cmd_buf < 4294967296 := buffer_lt m 0 (by decide)

@[simp] theorem read_buf_lt : m.read_buf < 4294967296 := buffer_lt m 64 (by decide)

@[simp] theorem path_buf_lt : m.path_buf < 4294967296 := buffer_lt m 136 (by decide)

@[simp] theorem write_buf_lt : m.write_buf < 4294967296 := buffer_lt m 264 (by decide)

theorem fixed_var (m : Image) (n : Nat) (hn : n ≤ 800) : Fixed (.mem ⟨none, m.bss + n⟩) := by
  have := image_room m
  refine ⟨rfl, ?_, ?_⟩ <;> dsimp only <;> omega

@[simp] theorem fixed_fd_store : Fixed (.mem ⟨none, m.fd_store⟩) := fixed_var m 128 (by decide)

@[simp] theorem fixed_ls_index : Fixed (.mem ⟨none, m.ls_index⟩) := fixed_var m 132 (by decide)

@[simp] theorem fixed_write_count : Fixed (.mem ⟨none, m.write_count⟩) := fixed_var m 776 (by decide)

@[simp] theorem fixed_write_result : Fixed (.mem ⟨none, m.write_result⟩) := fixed_var m 780 (by decide)

@[simp] theorem fixed_child_pid : Fixed (.mem ⟨none, m.child_pid⟩) := fixed_var m 784 (by decide)

/-! ## What stays -/

theorem loaded_congr (h : Loaded m μ) (hsame : ∀ x, x < m.bss → ν x = μ x) : Loaded m ν := by
  intro t i hi
  have := text_room m t
  rw [hsame _ (by omega), h t i hi]

theorem loaded_store {n v : Nat} (h : Loaded m μ) : Loaded m (store32 μ (m.bss + n) v) :=
  loaded_congr h fun x hx => store32_out _ _ _ _ (by omega)

theorem pathAt_congr {path : List UInt8} (h : PathAt m μ path)
    (hsame : ∀ x, m.path_buf ≤ x → x < m.path_buf + 128 → ν x = μ x) : PathAt m ν path := by
  refine ⟨(bytesAt_congr fun x h1 h2 => hsame x h1 ?_).mpr h.bytes, h.no_nul, h.fits⟩
  have := h.fits
  rw [List.length_append, List.length_singleton] at h2
  omega

theorem pathAt_store {path : List UInt8} {n v : Nat} (h : PathAt m μ path) (hn : n + 4 ≤ 136 ∨ 264 ≤ n) :
    PathAt m (store32 μ (m.bss + n) v) path :=
  pathAt_congr h fun x h1 h2 => store32_out _ _ _ _ (by unfold Image.path_buf at h1 h2; omega)

theorem answers_quiet (n : Nat) (h : Stands m p s) (ha : Answers s r t) (hcall : (p.call m).1 = n)
    (hn : n ∉ [SYS_READ, SYS_READLINE, SYS_READDIR]) : t.mem = s.mem := by
  have hbuf : bufferOf s = (0, 0) := by
    simp only [SYS_READ, SYS_READLINE, SYS_READDIR, List.mem_cons, List.not_mem_nil, or_false, not_or] at hn
    unfold bufferOf
    rw [h.eax, hcall]
    split
    · omega
    · omega
    · omega
    · rfl
  funext x
  refine ha.mem x ?_
  rw [hbuf]
  omega

theorem answers_buffer {a n : Nat} (ha : Answers s r t) (hbuf : bufferOf s = (m.bss + a, n)) :
    (∀ x, ¬ (m.bss + a ≤ x ∧ x < m.bss + a + n) → above t.mem x = above s.mem x) ∧
      r.data = fun i => above t.mem (m.bss + a + i) := by
  have hroom := image_room m
  have hmem := ha.mem
  have hdata := ha.data
  rw [hbuf] at hmem hdata
  constructor
  · intro x hx
    unfold above
    rw [hmem x hx]
  · funext i
    rw [hdata i, above_apply (by omega)]

theorem stands_resume {n : Nat} (k : Nat) (h : Stands m p s) (ha : Answers s r t) (hsite : p.site = some (l, n))
    (hk : p.depth m = k) (hc : (n + 1, pops k) ∈ pieces m l) :
    ∃ u, Runs (program m) t u ∧ Sits m l (n + 2) (above t.mem) u ∧ u.reg .eax = r.eax := by
  have hpc : t.pc = (program m).addr l + (n + 1) := by rw [ha.pc, h.pc l n hsite, Nat.add_assoc]
  obtain ⟨u, hu, hsits, heax⟩ := sits_pops k hpc (piece_code m hc) (by rw [ha.esp, ← hk]; exact h.esp)
  exact ⟨u, hu, hsits, by rw [heax, ha.eax]⟩

theorem sits_stands {n k : Nat} (q : Point) (os : List Operand) (hs : Sits m l k μ s)
    (hc : (k, syscall n os) ∈ pieces m l) (hos : ∀ o ∈ os, Fixed o) (hn : n ≤ 11) (hlen : os.length ≤ 3)
    (hsite : q.site = none ∨ q.site = some (l, k + os.length + 1)) (hcall : q.call m = (n, os.map (valueIn μ)))
    (hdepth : q.depth m = 4 * (q.call m).2.length) (hpid : ∀ i, q ≠ .pid i) (hloaded : Loaded m μ)
    (hholds : q.Holds m μ) : ∃ t, Runs (program m) s t ∧ Stands m q t := by
  obtain ⟨t, ht, hint, hpc, heax, hesp, hargs, hmem⟩ := sits_trap os hs hc (by omega) hos hlen
  refine ⟨t, ht, hint, ?_, ?_, ?_, ?_, ?_, ?_, fun i hi => absurd hi (hpid i)⟩
  · intro l' n' hq
    rcases hsite with h | h
    · rw [h] at hq
      cases hq
    · rw [h, Option.some.injEq, Prod.mk.injEq] at hq
      rw [hpc, ← hq.1, ← hq.2]
  · rw [heax, hcall]
  · rw [hdepth, hcall]
    exact hesp
  · rw [hcall]
    exact hargs
  · rw [hmem]
    exact hloaded
  · rw [hmem]
    exact hholds

theorem quiet_next {n k : Nat} (q : Point) (os : List Operand) (h : Stands m p s) (ha : Answers s r t)
    (hsite : p.site = some (l, n)) (hquiet : (p.call m).1 = SYS_PRINT ∨ (p.call m).1 = SYS_CLOSE)
    (hdepth : p.depth m = 4) (hc : (n + 1, pops 4) ∈ pieces m l) (hc' : (n + 2, syscall k os) ∈ pieces m l)
    (hos : ∀ o ∈ os, Fixed o) (hk : k ≤ 11) (hlen : os.length ≤ 3)
    (hsite' : q.site = none ∨ q.site = some (l, n + 2 + os.length + 1))
    (hcall : q.call m = (k, os.map (valueIn (above s.mem)))) (hdepth' : q.depth m = 4 * (q.call m).2.length)
    (hpid : ∀ i, q ≠ .pid i) (hholds : q.Holds m (above s.mem)) : ∃ u, Runs (program m) t u ∧ Stands m q u := by
  obtain ⟨u, hu, hsits, -⟩ := stands_resume 4 h ha hsite hdepth hc
  have hmem : t.mem = s.mem := by
    rcases hquiet with hn | hn
    · exact answers_quiet SYS_PRINT h ha hn (by decide)
    · exact answers_quiet SYS_CLOSE h ha hn (by decide)
  rw [hmem] at hsits
  obtain ⟨v, hv, hstands⟩ := sits_stands q os hsits hc' hos hk hlen hsite' hcall hdepth' hpid h.loaded hholds
  exact ⟨v, runs_trans hu hv, hstands⟩

theorem quiet_exit {n : Nat} (h : Stands m p s) (ha : Answers s r t) (hsite : p.site = some (l, n))
    (hquiet : (p.call m).1 = SYS_PRINT ∨ (p.call m).1 = SYS_CLOSE) (hdepth : p.depth m = 4)
    (hc : (n + 1, pops 4) ∈ pieces m l) (hc' : (n + 2, exit) ∈ pieces m l) :
    ∃ u, Runs (program m) t u ∧ Stands m .exit u :=
  quiet_next .exit [] h ha hsite hquiet hdepth hc hc' (by simp) (by decide) (by decide)
    (Or.inl rfl) rfl rfl (by simp) trivial

/-! ## Entries of blocks -/

theorem sits_start {l' : Label} {k : Nat} (hs : Sits m l k μ s) (h : (program m).addr l' = (program m).addr l + k) :
    Sits m l' 0 μ s := ⟨by rw [hs.pc, h]; rfl, hs.esp, hs.mem⟩

theorem sits_print {k : Nat} (q : Point) (t : Text) (hs : Sits m l k μ s)
    (hc : (k, syscall SYS_PRINT [.imm (m.text t)]) ∈ pieces m l) (hsite : q.site = some (l, k + 2))
    (hcall : q.call m = (SYS_PRINT, [m.text t])) (hdepth : q.depth m = 4) (hpid : ∀ i, q ≠ .pid i)
    (hloaded : Loaded m μ) (hholds : q.Holds m μ) : ∃ u, Runs (program m) s u ∧ Stands m q u :=
  sits_stands q [.imm (m.text t)] hs hc (by simp) (by decide) (by simp)
    (Or.inr hsite) hcall (by rw [hdepth, hcall]; rfl) hpid hloaded hholds

theorem enter_prompt (hs : Sits m .prompt_loop 0 μ s) (hloaded : Loaded m μ) :
    ∃ u, Runs (program m) s u ∧ Stands m .prompt u := by
  have hroom := image_room m
  have hcmd : m.cmd_buf = m.bss := rfl
  have hc : (0, [.push (.imm 64), .push (.imm m.cmd_buf), .call .memzero]) ∈ pieces m .prompt_loop := by simp [pieces]
  obtain ⟨t, ν, ht, hsits, hzero⟩ := sits_memzero hs hc (by simp [pieces]) (by omega) (by omega)
  have hloaded' : Loaded m ν := loaded_congr hloaded fun x hx => by rw [hzero, if_neg (by omega)]
  obtain ⟨u, hu, hstands⟩ := sits_print .prompt .msg_prompt hsits (by simp [pieces]) rfl rfl rfl (by simp) hloaded'
    (by rw [Point.Holds, hzero, if_pos (by omega)])
  exact ⟨u, runs_trans ht hu, hstands⟩

theorem enter_command (hs : Sits m .read_again 0 μ s) (hloaded : Loaded m μ) (hend : μ (m.cmd_buf + 63) = 0) :
    ∃ u, Runs (program m) s u ∧ Stands m .command u :=
  sits_stands (n := SYS_READLINE) .command [.imm m.cmd_buf, .imm 63] hs (by simp [pieces]) (by simp)
    (by decide) (by simp) (Or.inr rfl) rfl rfl (by simp) hloaded hend

theorem enter_wait {n : Nat} (hs : Sits m .wait_loop 0 μ s) (hloaded : Loaded m μ) (hpid : load32 μ m.child_pid = n) :
    ∃ u, Runs (program m) s u ∧ Stands m (.wait n) u :=
  sits_stands (n := SYS_WAIT) (.wait n) [.mem ⟨none, m.child_pid⟩] hs (by simp [pieces]) (by simp) (by decide) (by simp)
    (Or.inr rfl) (by rw [← hpid]; rfl) rfl (by simp) hloaded hpid

theorem enter_entry {index : Nat} (hs : Sits m .ls_loop 0 μ s) (hloaded : Loaded m μ)
    (hindex : load32 μ m.ls_index = index) : ∃ u, Runs (program m) s u ∧ Stands m (.entry index) u := by
  have hroom := image_room m
  have hread : m.read_buf = m.bss + 64 := rfl
  have hls : m.ls_index = m.bss + 132 := rfl
  have hc : (0, [.push (.imm 64), .push (.imm m.read_buf), .call .memzero]) ∈ pieces m .ls_loop := by simp [pieces]
  obtain ⟨t, ν, ht, hsits, hzero⟩ := sits_memzero hs hc (by simp [pieces]) (by omega) (by omega)
  have hloaded' : Loaded m ν := loaded_congr hloaded fun x hx => by rw [hzero, if_neg (by omega)]
  have hindex' : load32 ν m.ls_index = index := by
    rw [← hindex]
    exact load32_congr _ _ _ fun x h1 _ => by rw [hzero, if_neg (by omega)]
  obtain ⟨u, hu, hstands⟩ := sits_stands (n := SYS_READDIR) (.entry index)
    [.mem ⟨none, m.ls_index⟩, .imm m.read_buf, .imm 64] hsits (by simp [pieces]) (by simp) (by decide) (by simp)
    (Or.inr rfl) (by rw [← hindex']; rfl) rfl (by simp) hloaded' hindex'
  exact ⟨u, runs_trans ht hu, hstands⟩

/-! ## The parent -/

theorem reply_welcome (h : Stands m .welcome s) (ha : Answers s r t) :
    ∃ u, Runs (program m) t u ∧ Stands m .prompt u := by
  obtain ⟨u, hu, hsits, -⟩ := stands_resume 4 h ha rfl rfl (by simp [pieces])
  rw [answers_quiet SYS_PRINT h ha rfl (by decide)] at hsits
  obtain ⟨v, hv, hstands⟩ := enter_prompt (sits_start hsits (addr_prompt_loop m)) h.loaded
  exact ⟨v, runs_trans hu hv, hstands⟩

theorem reply_prompt (h : Stands m .prompt s) (ha : Answers s r t) :
    ∃ u, Runs (program m) t u ∧ Stands m .command u := by
  obtain ⟨u, hu, hsits, -⟩ := stands_resume 4 h ha rfl rfl (by simp [pieces])
  rw [answers_quiet SYS_PRINT h ha rfl (by decide)] at hsits
  obtain ⟨v, hv, hstands⟩ := enter_command (sits_start hsits (addr_read_again m)) h.loaded h.holds
  exact ⟨v, runs_trans hu hv, hstands⟩

/-- A command line has been read. The buffer of the call ends before the last byte of `cmd_buf`. -/
theorem answers_command (h : Stands m .command s) (ha : Answers s r t) :
    Loaded m (above t.mem) ∧ above t.mem (m.cmd_buf + 63) = 0 ∧ r.data = fun i => above t.mem (m.cmd_buf + i) := by
  have hcmd : m.cmd_buf = m.bss := rfl
  have hbuf : bufferOf s = (m.bss + 0, 63) := by
    simp only [bufferOf, h.eax, Point.call, SYS_READLINE, h.args 0 _ rfl, h.args 1 _ rfl]
    rfl
  obtain ⟨hsame, hdata⟩ := answers_buffer ha hbuf
  refine ⟨loaded_congr h.loaded fun x hx => hsame x (by omega), ?_, hdata⟩
  rw [hsame _ (by omega)]
  exact h.holds

theorem sits_command {k : Nat} (t : Text) (l' : Label) (hs : Sits m l k μ s) (hc : (k, dispatch m t l') ∈ pieces m l)
    (hloaded : Loaded m μ) (hshort : t.chars.length ≤ 63) :
    ∃ u, Runs (program m) s u ∧ (t.chars <+: cut 63 (fun i => μ (m.cmd_buf + i)) → Sits m l' 0 μ u) ∧
      (¬ t.chars <+: cut 63 (fun i => μ (m.cmd_buf + i)) → Sits m l (k + 6) μ u) := by
  have h1 := text_room m t
  have h2 := image_room m
  obtain ⟨hnul, -⟩ := chars_no_nul t
  simp only [prefix_cut 63 m.cmd_buf μ t.chars hnul hshort]
  exact sits_dispatch t l' hs hc (loaded_bytes m hloaded t) hnul (by omega) (by omega) (by omega)

theorem reply_command (h : Stands m .command s) (ha : Answers s r t) :
    ∃ u, Runs (program m) t u ∧ Stands m (Point.command.reply r) u := by
  obtain ⟨hloaded, hend, hdata⟩ := answers_command h ha
  obtain ⟨u, hu, hsits, heax⟩ := stands_resume 8 h ha rfl rfl (by simp [pieces])
  obtain ⟨v, hv, -, -, hyes, hno⟩ := sits_test .le .read_again hsits (piece_code m (by simp [pieces]))
  rw [heax, holds_le_logic] at hyes hno
  have hrun := runs_trans hu hv
  simp only [Point.reply, hdata]
  by_cases hnone : r.eax = 0 ∨ neg32 r.eax = true
  · rw [if_pos hnone]
    obtain ⟨w, hw, hstands⟩ := enter_command (hyes (by simpa using hnone)) hloaded hend
    exact ⟨w, runs_trans hrun hw, hstands⟩
  rw [if_neg hnone]
  obtain ⟨w, hw, hyes, hno⟩ := sits_command .cmd_exit .do_exit_now (hno (by simpa using hnone))
    (by simp [pieces]) hloaded (by decide)
  have hrun := runs_trans hrun hw
  by_cases hexit : Text.chars .cmd_exit <+: cut 63 fun i => above t.mem (m.cmd_buf + i)
  · rw [if_pos (Or.inl hexit)]
    obtain ⟨z, hz, hstands⟩ := sits_print .goodbye .msg_exit (hyes hexit)
      (by simp [pieces]) rfl rfl rfl (by simp) hloaded
      trivial
    exact ⟨z, runs_trans hrun hz, hstands⟩
  obtain ⟨x, hx, hyes, hno⟩ := sits_command .cmd_quit .do_exit_now (hno hexit) (by simp [pieces]) hloaded (by decide)
  have hrun := runs_trans hrun hx
  by_cases hquit : Text.chars .cmd_quit <+: cut 63 fun i => above t.mem (m.cmd_buf + i)
  · rw [if_pos (Or.inr hquit)]
    obtain ⟨z, hz, hstands⟩ := sits_print .goodbye .msg_exit (hyes hquit)
      (by simp [pieces]) rfl rfl rfl (by simp) hloaded
      trivial
    exact ⟨z, runs_trans hrun hz, hstands⟩
  rw [if_neg (by rintro (h | h) <;> contradiction)]
  obtain ⟨z, hz, hstands⟩ := sits_stands (n := SYS_FORK) (.fork _) [] (hno hquit) (by simp [pieces])
    (by simp) (by decide) (by simp) (Or.inr rfl) rfl rfl (by simp) hloaded ⟨hend, rfl, hexit⟩
  exact ⟨z, runs_trans hrun hz, hstands⟩

theorem reply_forked {n : Nat} (h : Stands m (.forked n) s) (ha : Answers s r t) :
    ∃ u, Runs (program m) t u ∧ Stands m (.pid n) u := by
  have hroom := image_room m
  have hint : m.int_buf = m.bss + 788 := rfl
  have hchild : m.child_pid = m.bss + 784 := rfl
  obtain ⟨u, hu, hsits, -⟩ := stands_resume 4 h ha rfl rfl (by simp [pieces])
  rw [answers_quiet SYS_PRINT h ha rfl (by decide)] at hsits
  obtain ⟨hsteady, hread⟩ := fixed_steady hsits (fixed_child_pid (m := m))
  have hc :
      (program m).CodeAt ((program m).addr .parent_wait + 5) [.push (.mem ⟨none, m.child_pid⟩), .call .print_int] :=
    piece_code m (by simp [pieces])
  obtain ⟨v, hv, hvpc, hvesp, hvtop, hvargs, hvmem⟩ :=
    sits_enter [.mem ⟨none, m.child_pid⟩] hsits hc (by simpa using hsteady) (by simp)
  have hb : v.reg .esp = 0x3FEFE0 + 24 := by
    simp only [List.length_cons, List.length_nil] at hvesp
    omega
  have harg := hvargs 0 _ rfl
  rw [hread, hb, valueIn, h.holds] at harg
  obtain ⟨w, hw, hstep, hwpc, hweax, hwesp, hplace, hbytes, hwmem⟩ := print_int_traps m v n hvpc hb (by omega) harg
  have hlen := decimal_length n (by rw [← h.holds]; exact load32_lt _ _)
  -- what is above the stack, apart from the digits
  have hsame : ∀ x, ¬ (m.int_buf ≤ x ∧ x < m.int_buf + 11) → above w.mem x = above s.mem x := by
    intro x hx
    rw [← hvmem]
    unfold above
    split
    · exact hwmem x hx (by omega)
    · rfl
  refine ⟨w, runs_trans hu (runs_trans hv hw), hstep, ?_, hweax, by rw [hwesp]; rfl, ?_, ?_, ⟨?_, ?_⟩, ?_⟩
  · intro l k hsite
    cases hsite
    exact hwpc
  · intro i x hi
    cases i with
    | zero =>
      cases hi
      unfold arg
      rw [hwesp, Nat.mul_zero, Nat.add_zero]
      omega
    | succ i => cases hi
  · exact loaded_congr h.loaded fun x hx => hsame x (by omega)
  · rw [← h.holds]
    exact load32_congr _ _ _ fun x h1 h2 => hsame x (by omega)
  · have hstart : m.int_buf + 10 - (decimal n).length = load32 w.mem 0x3FEFE0 := by omega
    rw [hstart]
    refine (bytesAt_congr fun x h1 _ => above_apply ?_).mpr hbytes
    omega
  · intro _ _
    have hback : v.top = (program m).addr .parent_wait + 7 := hvtop
    rw [← hback, Core.top, hb]
    exact load32_congr _ _ _ fun x h1 h2 => hwmem x (by omega) (by omega)

theorem reply_pid {n : Nat} (h : Stands m (.pid n) s) (ha : Answers s r t) :
    ∃ u, Runs (program m) t u ∧ Stands m (.pidEnd n) u := by
  have hmem := answers_quiet SYS_PRINT h ha rfl (by decide)
  have hesp : t.reg .esp = 0x3FEFE0 := by
    have := h.esp
    rw [ha.esp]
    simp only [Point.depth] at this
    omega
  obtain ⟨u, hu, hupc, huesp, humem⟩ := print_int_returns m t (by rw [ha.pc, h.pc _ _ rfl]) hesp (by omega)
  rw [hmem, h.back n rfl] at hupc
  obtain ⟨v, hv, hsits, -⟩ := sits_pops 4 hupc (piece_code m (by simp [pieces])) (by rw [huesp])
  rw [humem, hmem] at hsits
  obtain ⟨w, hw, hstands⟩ := sits_print (.pidEnd n) .msg_newline hsits (by simp [pieces]) rfl rfl rfl (by simp) h.loaded
    h.holds.1
  exact ⟨w, runs_trans hu (runs_trans hv hw), hstands⟩

theorem reply_pidEnd {n : Nat} (h : Stands m (.pidEnd n) s) (ha : Answers s r t) :
    ∃ u, Runs (program m) t u ∧ Stands m (.wait n) u := by
  obtain ⟨u, hu, hsits, -⟩ := stands_resume 4 h ha rfl rfl (by simp [pieces])
  rw [answers_quiet SYS_PRINT h ha rfl (by decide)] at hsits
  obtain ⟨v, hv, hstands⟩ := enter_wait (sits_start hsits (addr_wait_loop m)) h.loaded h.holds
  exact ⟨v, runs_trans hu hv, hstands⟩

theorem reply_wait {n : Nat} (h : Stands m (.wait n) s) (ha : Answers s r t) :
    ∃ u, Runs (program m) t u ∧ Stands m ((Point.wait n).reply r) u := by
  obtain ⟨u, hu, hsits, heax⟩ := stands_resume 4 h ha rfl rfl (by simp [pieces])
  rw [answers_quiet SYS_WAIT h ha rfl (by decide)] at hsits
  obtain ⟨v, hv, -, -, hyes, hno⟩ := sits_test .nz .wait_loop hsits (piece_code m (by simp [pieces]))
  rw [heax, holds_nz_logic] at hyes hno
  have hrun := runs_trans hu hv
  simp only [Point.reply]
  by_cases hzero : r.eax = 0
  · rw [if_neg (not_not.mpr hzero)]
    obtain ⟨w, hw, hstands⟩ := sits_print .resume .msg_parent_resume (hno (by simp [hzero]))
      (by simp [pieces]) rfl rfl rfl (by simp) h.loaded trivial
    exact ⟨w, runs_trans hrun hw, hstands⟩
  · rw [if_pos hzero]
    obtain ⟨w, hw, hstands⟩ := enter_wait (hyes (by simp [hzero])) h.loaded h.holds
    exact ⟨w, runs_trans hrun hw, hstands⟩

theorem reply_resume (h : Stands m .resume s) (ha : Answers s r t) :
    ∃ u, Runs (program m) t u ∧ Stands m .prompt u := by
  obtain ⟨u, hu, hsits, -⟩ := stands_resume 4 h ha rfl rfl (by simp [pieces])
  rw [answers_quiet SYS_PRINT h ha rfl (by decide)] at hsits
  have hc : (program m).CodeAt ((program m).addr .wait_loop + 10) [.jmp .prompt_loop] := piece_code m (by simp [pieces])
  have hjmp := runs_jmp (s := u) (by rw [hsits.pc]; exact (codeAt_cons.mp hc).1)
  obtain ⟨v, hv, hstands⟩ := enter_prompt (μ := above s.mem) (s := u.goto _) ⟨rfl, hsits.esp, hsits.mem⟩ h.loaded
  exact ⟨v, runs_trans hu (runs_trans hjmp hv), hstands⟩

end PeachOS.Shell
