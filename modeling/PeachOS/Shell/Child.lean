import PeachOS.Shell.Steps

/-!
# The child's commands

What a child does between its calls, and the whole step: from the call of a point to the call of the next one.
-/

open PeachOS.Lib.Asm

namespace PeachOS.Shell

variable {m : Image} {s t : Core} {r : Reply} {l : Label} {μ : Nat → UInt8}

/-! ## The command line -/

theorem sits_path {n : Nat} (hs : Sits m l 0 μ s) (hc : (0, pathOf m n) ∈ pieces m l) (hn : n ≤ 12)
    (hloaded : Loaded m μ) (hend : μ (m.cmd_buf + 63) = 0) (hline : n ≤ (cut 63 fun i => μ (m.cmd_buf + i)).length) :
    ∃ t ν, Runs (program m) s t ∧ Sits m l 4 ν t ∧ Loaded m ν ∧
      PathAt m ν (pathFor ((cut 63 fun i => μ (m.cmd_buf + i)).drop n)) := by
  have hpath : m.path_buf = m.bss + 136 := rfl
  obtain ⟨t, ν, ht, hsits, hbytes, hsame⟩ := sits_pathOf hs hc hn
  rw [path_eq m n μ hend hline] at hbytes
  obtain ⟨hnul, hfits⟩ := pathFor_cut (63 - n) (fun i => μ (m.cmd_buf + n + i)) (Nat.sub_le 63 n)
  rw [← cut_drop n 63 m.cmd_buf μ hline] at hnul hfits
  exact ⟨t, ν, ht, hsits, loaded_congr hloaded fun x hx => hsame x (by omega), hbytes, hnul, hfits⟩

theorem enter_child (hs : Sits m .read_again 24 μ s) (hloaded : Loaded m μ) (hend : μ (m.cmd_buf + 63) = 0)
    (hexit : ¬ Text.chars .cmd_exit <+: cut 63 fun i => μ (m.cmd_buf + i)) :
    ∃ u, Runs (program m) s u ∧ Stands m (Point.child (cut 63 fun i => μ (m.cmd_buf + i))) u := by
  unfold Point.child
  obtain ⟨a, ha, hyes, hno⟩ := sits_command .cmd_ls .do_ls hs (by simp [pieces]) hloaded (by decide)
  by_cases hls : Text.chars .cmd_ls <+: cut 63 fun i => μ (m.cmd_buf + i)
  · rw [if_pos hls]
    obtain ⟨u, hu, hstands⟩ := sits_print .listing .msg_ls_header (hyes hls)
      (by simp [pieces]) rfl rfl rfl (by simp) hloaded
      trivial
    exact ⟨u, runs_trans ha hu, hstands⟩
  rw [if_neg hls]
  obtain ⟨b, hb, hyes, hno⟩ := sits_command .cmd_cat .do_cat (hno hls) (by simp [pieces]) hloaded (by decide)
  have hrun := runs_trans ha hb
  by_cases hcat : Text.chars .cmd_cat <+: cut 63 fun i => μ (m.cmd_buf + i)
  · rw [if_pos hcat]
    obtain ⟨v, ν, hv, hsits, hloaded', hpath⟩ := sits_path (n := 4) (hyes hcat) (by simp [pieces])
      (by decide) hloaded hend (hcat.length_le.trans' (by decide))
    obtain ⟨u, hu, hstands⟩ := sits_stands (n := SYS_OPEN) (.openRead _) [.imm m.path_buf, .imm FILE_MODE_READ] hsits
      (by simp [pieces]) (by simp [FILE_MODE_READ]) (by decide) (by simp) (Or.inr rfl) rfl rfl (by simp) hloaded' hpath
    exact ⟨u, runs_trans hrun (runs_trans hv hu), hstands⟩
  rw [if_neg hcat]
  obtain ⟨c, hc, hyes, hno⟩ := sits_command .cmd_write .do_write (hno hcat) (by simp [pieces]) hloaded (by decide)
  have hrun := runs_trans hrun hc
  by_cases hwrite : Text.chars .cmd_write <+: cut 63 fun i => μ (m.cmd_buf + i)
  · rw [if_pos hwrite]
    obtain ⟨v, ν, hv, hsits, hloaded', hpath⟩ := sits_path (n := 6) (hyes hwrite) (by simp [pieces])
      (by decide) hloaded hend (hwrite.length_le.trans' (by decide))
    obtain ⟨u, hu, hstands⟩ :=
      sits_print (.ask _) .msg_write_prompt hsits (by simp [pieces]) rfl rfl rfl (by simp) hloaded' hpath
    exact ⟨u, runs_trans hrun (runs_trans hv hu), hstands⟩
  rw [if_neg hwrite]
  obtain ⟨d, hd, hyes, hno⟩ := sits_command .cmd_del .do_del (hno hwrite) (by simp [pieces]) hloaded (by decide)
  have hrun := runs_trans hrun hd
  by_cases hdel : Text.chars .cmd_del <+: cut 63 fun i => μ (m.cmd_buf + i)
  · rw [if_pos hdel]
    obtain ⟨v, ν, hv, hsits, hloaded', hpath⟩ := sits_path (n := 4) (hyes hdel) (by simp [pieces])
      (by decide) hloaded hend (hdel.length_le.trans' (by decide))
    obtain ⟨u, hu, hstands⟩ := sits_stands (n := SYS_DELETE) (.delete _)
      [.imm m.path_buf] hsits (by simp [pieces]) (by simp) (by decide) (by simp)
      (Or.inr rfl) rfl rfl (by simp) hloaded' hpath
    exact ⟨u, runs_trans hrun (runs_trans hv hu), hstands⟩
  rw [if_neg hdel]
  -- the parent has tested for `exit` already, on the same line
  obtain ⟨e, he, -, hno⟩ := sits_command .cmd_exit .do_exit (hno hdel) (by simp [pieces]) hloaded (by decide)
  obtain ⟨u, hu, hstands⟩ := sits_print .unknown .msg_unknown (hno hexit)
    (by simp [pieces]) rfl rfl rfl (by simp) hloaded
    trivial
  exact ⟨u, runs_trans hrun (runs_trans he hu), hstands⟩

theorem reply_fork {line : List UInt8} (h : Stands m (.fork line) s) (ha : Answers s r t) :
    ∃ u, Runs (program m) t u ∧ Stands m ((Point.fork line).reply r) u := by
  have hmem := answers_quiet SYS_FORK h ha rfl (by decide)
  obtain ⟨hend, rfl, hexit⟩ := h.holds
  have hsits : Sits m .read_again 21 (above s.mem) t :=
    ⟨by rw [ha.pc, h.pc _ _ rfl], by rw [ha.esp]; exact h.esp, by rw [hmem]⟩
  have hc : (program m).CodeAt ((program m).addr .read_again + 21)
      [.test (.reg .eax) (.reg .eax), .jcc .s .prompt_loop, .jcc .nz .parent_wait] := piece_code m (by simp [pieces])
  obtain ⟨u, hu, hueax, huflags, hyes, hno⟩ := sits_test .s .prompt_loop hsits (codeAt_part hc 0 2)
  rw [ha.eax] at hueax
  rw [ha.eax, holds_s_logic] at hyes hno
  rw [ha.eax] at huflags
  simp only [Point.reply]
  by_cases hneg : neg32 r.eax = true
  · rw [if_pos hneg]
    obtain ⟨v, hv, hstands⟩ := enter_prompt (hyes hneg) h.loaded
    exact ⟨v, runs_trans hu hv, hstands⟩
  rw [if_neg hneg]
  have hsits := hno (by simpa using hneg)
  obtain ⟨v, hv, hvreg, hyes, hno⟩ := sits_cond (c := .nz) (b := []) .parent_wait hsits (codeAt_part hc 2 1) rfl rfl rfl
  rw [huflags, holds_nz_logic] at hyes hno
  have hrun := runs_trans hu hv
  by_cases hzero : r.eax = 0
  · rw [if_neg (not_not.mpr hzero)]
    obtain ⟨w, hw, hstands⟩ := enter_child (hno (by simp [hzero])) h.loaded hend hexit
    exact ⟨w, runs_trans hrun hw, hstands⟩
  · rw [if_pos hzero]
    obtain ⟨w, hw, hsits⟩ := sits_keep (hyes (by simp [hzero])) (by simp [pieces]) (fixed_child_pid (m := m))
    rw [hvreg, hueax] at hsits
    obtain ⟨z, hz, hstands⟩ :=
      sits_print (.forked r.eax) Text.msg_fork_prefix hsits (by simp [pieces]) rfl rfl rfl (by simp)
      (loaded_store h.loaded) (load32_store32 _ _ _ ha.word)
    exact ⟨z, runs_trans hrun (runs_trans hw hz), hstands⟩

/-! ## `ls` -/

theorem reply_listing (h : Stands m .listing s) (ha : Answers s r t) :
    ∃ u, Runs (program m) t u ∧ Stands m (.entry 0) u := by
  obtain ⟨-, hlow, hhigh⟩ := fixed_ls_index (m := m)
  dsimp only at hlow hhigh
  obtain ⟨u, hu, hsits, -⟩ := stands_resume 4 h ha rfl rfl (by simp [pieces])
  rw [answers_quiet SYS_PRINT h ha rfl (by decide)] at hsits
  obtain ⟨v, hv, hvreg, hvmem⟩ : ∃ v, effects [(.mov (.mem ⟨none, m.ls_index⟩) (.imm 0) : Ins Label)] u = some v ∧
      v.reg = u.reg ∧ v.mem = store32 u.mem m.ls_index 0 := by
    simp (disch := omega) [Nat.mod_eq_of_lt]
  obtain ⟨hrun, hsits'⟩ := sits_block hsits (piece_code m (by simp [pieces])) hv (by rw [hvreg])
  rw [hvmem, above_store32 _ _ _ hlow, hsits.mem] at hsits'
  obtain ⟨w, hw, hstands⟩ := enter_entry (sits_start hsits' (addr_ls_loop m)) (loaded_store h.loaded)
    (load32_store32 _ _ _ (by decide))
  exact ⟨w, runs_trans hu (runs_trans hrun hw), hstands⟩

theorem reply_entry {index : Nat} (h : Stands m (.entry index) s) (ha : Answers s r t) :
    ∃ u, Runs (program m) t u ∧ Stands m ((Point.entry index).reply r) u := by
  have hls : m.ls_index = m.bss + 132 := rfl
  have hbuf : bufferOf s = (m.bss + 64, 64) := by
    simp only [bufferOf, h.eax, Point.call, SYS_READDIR, h.args 1 _ rfl, h.args 2 _ rfl]
    rfl
  obtain ⟨hsame, hdata⟩ := answers_buffer ha hbuf
  have hloaded : Loaded m (above t.mem) := loaded_congr h.loaded fun x hx => hsame x (by omega)
  have hindex : load32 (above t.mem) m.ls_index = index := by
    rw [← h.holds]
    exact load32_congr _ _ _ fun x h1 _ => hsame x (by omega)
  obtain ⟨u, hu, hsits, heax⟩ := stands_resume 12 h ha rfl rfl (by simp [pieces])
  have hword := ha.word
  obtain ⟨v, hv, hvreg, hvmem, hvflags⟩ : ∃ v, effects [(.cmp (.reg .eax) (.imm 1) : Ins Label)] u = some v ∧
      v.reg = u.reg ∧ v.mem = u.mem ∧ v.flags = subFlags r.eax 1 := by
    simp [heax]
  obtain ⟨w, hw, -, hyes, hno⟩ := sits_cond (c := .nz) (b := [.cmp (.reg .eax) (.imm 1)]) .ls_done hsits
    (piece_code m (by simp [pieces])) hv (by rw [hvreg]) hvmem
  rw [hvflags, holds_nz_sub _ _ hword (by decide)] at hyes hno
  have hrun := runs_trans hu hw
  simp only [Point.reply, hdata]
  by_cases hone : r.eax = 1
  · rw [if_pos hone]
    obtain ⟨z, hz, hstands⟩ := sits_print (.indent index _) .msg_ls_indent (hno (by simp [hone]))
      (by simp [pieces]) rfl rfl rfl (by simp) hloaded ⟨hindex, rfl⟩
    exact ⟨z, runs_trans hrun hz, hstands⟩
  · rw [if_neg hone]
    obtain ⟨z, hz, hstands⟩ := sits_stands (n := SYS_EXIT) .exit [] (hyes (by simp [hone]))
      (by simp [pieces, exit]) (by simp) (by decide) (by simp) (Or.inl rfl) rfl rfl (by simp) hloaded trivial
    exact ⟨z, runs_trans hrun hz, hstands⟩

theorem reply_nameEnd {index : Nat} (h : Stands m (.nameEnd index) s) (ha : Answers s r t) :
    ∃ u, Runs (program m) t u ∧ Stands m (.entry ((index + 1) % 2 ^ 32)) u := by
  obtain ⟨-, hlow, hhigh⟩ := fixed_ls_index (m := m)
  dsimp only at hlow hhigh
  obtain ⟨u, hu, hsits, -⟩ := stands_resume 4 h ha rfl rfl (by simp [pieces])
  rw [answers_quiet SYS_PRINT h ha rfl (by decide)] at hsits
  have hindex : load32 u.mem m.ls_index = index := by
    rw [← load32_above _ _ hlow, hsits.mem]
    exact h.holds
  obtain ⟨v, hv, hvreg, hvmem⟩ : ∃ v, effects [(.inc (.mem ⟨none, m.ls_index⟩) : Ins Label)] u = some v ∧
      v.reg = u.reg ∧ v.mem = store32 u.mem m.ls_index ((index + 1) % 2 ^ 32) := by
    have hea : m.ls_index % 4294967296 = m.ls_index := Nat.mod_eq_of_lt hhigh
    simp [hea, hindex]
  have hrun := runs_goto (l := .ls_loop) (w := [.inc (.mem ⟨none, m.ls_index⟩)])
    (by rw [hsits.pc]; exact piece_code m (by simp [pieces])) hv
  have hword : (index + 1) % 2 ^ 32 < 2 ^ 32 := Nat.mod_lt _ (by decide)
  obtain ⟨w, hw, hstands⟩ := enter_entry (m := m) (s := v.goto _)
    (μ := store32 (above s.mem) m.ls_index ((index + 1) % 2 ^ 32))
    ⟨rfl, by rw [Core.goto_reg, hvreg, hsits.esp], by rw [Core.goto_mem, hvmem, above_store32 _ _ _ hlow, hsits.mem]⟩
    (loaded_store h.loaded) (load32_store32 _ _ _ hword)
  exact ⟨w, runs_trans hu (runs_trans hrun hw), hstands⟩

/-! ## `cat` -/

theorem reply_openRead {path : List UInt8} (h : Stands m (.openRead path) s) (ha : Answers s r t) :
    ∃ u, Runs (program m) t u ∧ Stands m ((Point.openRead path).reply r) u := by
  obtain ⟨u, hu, hsits, heax⟩ := stands_resume 8 h ha rfl rfl (by simp [pieces])
  rw [answers_quiet SYS_OPEN h ha rfl (by decide)] at hsits
  obtain ⟨v, hv, hveax, -, hyes, hno⟩ := sits_test .z .cat_fail hsits (piece_code m (by simp [pieces]))
  rw [heax] at hveax
  rw [heax, holds_z_logic] at hyes hno
  have hrun := runs_trans hu hv
  simp only [Point.reply]
  by_cases hzero : r.eax = 0
  · rw [if_pos hzero]
    obtain ⟨w, hw, hstands⟩ := sits_print .readError .msg_err_read (hyes (by simp [hzero]))
      (by simp [pieces]) rfl rfl rfl (by simp) h.loaded trivial
    exact ⟨w, runs_trans hrun hw, hstands⟩
  · rw [if_neg hzero]
    obtain ⟨w, hw, hsits⟩ := sits_keep (hno (by simp [hzero])) (by simp [pieces]) (fixed_fd_store (m := m))
    rw [hveax] at hsits
    have hfd := load32_store32 (above s.mem) m.fd_store r.eax ha.word
    obtain ⟨z, hz, hstands⟩ := sits_stands (n := SYS_READ) (.content r.eax)
      [.mem ⟨none, m.fd_store⟩, .imm m.read_buf, .imm 63] hsits (by simp [pieces]) (by simp) (by decide) (by simp)
      (Or.inr rfl) (by simp [Point.call, valueIn, hfd]) rfl (by simp) (loaded_store h.loaded) hfd
    exact ⟨z, runs_trans hrun (runs_trans hw hz), hstands⟩

theorem reply_content {fd : Nat} (h : Stands m (.content fd) s) (ha : Answers s r t) :
    ∃ u, Runs (program m) t u ∧ Stands m ((Point.content fd).reply r) u := by
  have hfd : m.fd_store = m.bss + 128 := rfl
  have hbuf : bufferOf s = (m.bss + 64, 63) := by
    simp only [bufferOf, h.eax, Point.call, SYS_READ, h.args 1 _ rfl, h.args 2 _ rfl]
    rfl
  obtain ⟨hsame, hdata⟩ := answers_buffer ha hbuf
  have hloaded : Loaded m (above t.mem) := loaded_congr h.loaded fun x hx => hsame x (by omega)
  have hstore : load32 (above t.mem) m.fd_store = fd := by
    rw [← h.holds]
    exact load32_congr _ _ _ fun x h1 _ => hsame x (by omega)
  obtain ⟨u, hu, hsits, heax⟩ := stands_resume 12 h ha rfl rfl (by simp [pieces])
  obtain ⟨v, hv, -, -, hyes, hno⟩ := sits_test .le .cat_fail hsits (piece_code m (by simp [pieces]))
  rw [heax, holds_le_logic] at hyes hno
  have hrun := runs_trans hu hv
  simp only [Point.reply, hdata]
  by_cases hnone : r.eax = 0 ∨ neg32 r.eax = true
  · rw [if_pos hnone]
    obtain ⟨w, hw, hstands⟩ := sits_print .readError .msg_err_read (hyes (by simpa using hnone))
      (by simp [pieces]) rfl rfl rfl (by simp) hloaded trivial
    exact ⟨w, runs_trans hrun hw, hstands⟩
  · rw [if_neg hnone]
    obtain ⟨w, hw, hstands⟩ := sits_stands (n := SYS_PRINT) (.contentText fd _) [.imm m.read_buf]
      (hno (by simpa using hnone)) (by simp [pieces]) (by simp) (by decide) (by simp)
      (Or.inr rfl) rfl rfl (by simp) hloaded ⟨hstore, rfl⟩
    exact ⟨w, runs_trans hrun hw, hstands⟩

/-! ## `write` -/

theorem reply_ask {path : List UInt8} (h : Stands m (.ask path) s) (ha : Answers s r t) :
    ∃ u, Runs (program m) t u ∧ Stands m (.input path) u := by
  have hroom := image_room m
  have hbuf : m.write_buf = m.bss + 264 := rfl
  have hpath : m.path_buf = m.bss + 136 := rfl
  obtain ⟨u, hu, hsits, -⟩ := stands_resume 4 h ha rfl rfl (by simp [pieces])
  rw [answers_quiet SYS_PRINT h ha rfl (by decide)] at hsits
  have hc : (8, [.push (.imm 512), .push (.imm m.write_buf), .call .memzero]) ∈ pieces m .do_write := by simp [pieces]
  obtain ⟨v, ν, hv, hsits, hzero⟩ := sits_memzero hsits hc (by simp [pieces]) (by omega) (by omega)
  obtain ⟨w, hw, hstands⟩ := sits_stands (n := SYS_READLINE) (.input path)
    [.imm m.write_buf, .imm 511] hsits (by simp [pieces]) (by simp) (by decide) (by simp) (Or.inr rfl) rfl rfl (by simp)
    (loaded_congr h.loaded fun x hx => by rw [hzero, if_neg (by omega)])
    (pathAt_congr h.holds fun x h1 h2 => by rw [hzero, if_neg (by omega)])
  exact ⟨w, runs_trans hu (runs_trans hv hw), hstands⟩

theorem reply_input {path : List UInt8} (h : Stands m (.input path) s) (ha : Answers s r t) :
    ∃ u, Runs (program m) t u ∧ Stands m (.openWrite path r.eax r.data) u := by
  have hwrite : m.write_buf = m.bss + 264 := rfl
  have hcount : m.write_count = m.bss + 776 := rfl
  have hpath : m.path_buf = m.bss + 136 := rfl
  have hbuf : bufferOf s = (m.bss + 264, 511) := by
    simp only [bufferOf, h.eax, Point.call, SYS_READLINE, h.args 0 _ rfl, h.args 1 _ rfl]
    rfl
  obtain ⟨hsame, hdata⟩ := answers_buffer ha hbuf
  have hfits := ha.fits h.eax
  rw [h.args 1 511 rfl] at hfits
  obtain ⟨u, hu, hsits, heax⟩ := stands_resume 8 h ha rfl rfl (by simp [pieces])
  obtain ⟨v, hv, hsits⟩ := sits_keep hsits (by simp [pieces]) (fixed_write_count (m := m))
  rw [heax] at hsits
  obtain ⟨w, hw, hstands⟩ := sits_stands (n := SYS_OPEN) (.openWrite path r.eax r.data)
    [.imm m.path_buf, .imm FILE_MODE_WRITE] hsits (by simp [pieces]) (by simp [FILE_MODE_WRITE]) (by decide) (by simp)
    (Or.inr rfl) rfl rfl (by simp) (loaded_store (loaded_congr h.loaded fun x hx => hsame x (by omega)))
    ⟨pathAt_store (pathAt_congr h.holds fun x h1 h2 => hsame x (by omega)) (Or.inr (by decide)),
      load32_store32 _ _ _ ha.word, fun i hi => by rw [store32_out _ _ _ _ (by omega), hdata, hwrite], hfits⟩
  exact ⟨w, runs_trans hu (runs_trans hv hw), hstands⟩

theorem reply_openWrite {path : List UInt8} {count : Nat} {data : Nat → UInt8}
    (h : Stands m (.openWrite path count data) s) (ha : Answers s r t) :
    ∃ u, Runs (program m) t u ∧ Stands m ((Point.openWrite path count data).reply r) u := by
  have hfdplace : m.fd_store = m.bss + 128 := rfl
  have hcountplace : m.write_count = m.bss + 776 := rfl
  have hwrite : m.write_buf = m.bss + 264 := rfl
  obtain ⟨hpath, hcount, hdata, hfits⟩ := h.holds
  obtain ⟨u, hu, hsits, heax⟩ := stands_resume 8 h ha rfl rfl (by simp [pieces])
  rw [answers_quiet SYS_OPEN h ha rfl (by decide)] at hsits
  obtain ⟨v, hv, hveax, -, hyes, hno⟩ := sits_test .z .write_fail hsits (piece_code m (by simp [pieces]))
  rw [heax] at hveax
  rw [heax, holds_z_logic] at hyes hno
  have hrun := runs_trans hu hv
  simp only [Point.reply]
  by_cases hzero : r.eax = 0
  · rw [if_pos hzero]
    obtain ⟨w, hw, hstands⟩ := sits_print .writeError .msg_err_write (hyes (by simp [hzero]))
      (by simp [pieces]) rfl rfl rfl (by simp) h.loaded trivial
    exact ⟨w, runs_trans hrun hw, hstands⟩
  · rw [if_neg hzero]
    obtain ⟨w, hw, hsits⟩ := sits_keep (hno (by simp [hzero])) (by simp [pieces]) (fixed_fd_store (m := m))
    rw [hveax] at hsits
    have hfd := load32_store32 (above s.mem) m.fd_store r.eax ha.word
    have hcount' : load32 (store32 (above s.mem) m.fd_store r.eax) m.write_count = count := by
      rw [load32_store32_out _ _ _ _ (by omega), hcount]
    obtain ⟨z, hz, hstands⟩ := sits_stands (n := SYS_WRITE) (.store path r.eax count data)
      [.mem ⟨none, m.fd_store⟩, .imm m.write_buf, .mem ⟨none, m.write_count⟩] hsits (by simp [pieces])
      (by simp) (by decide) (by simp) (Or.inr rfl) (by simp [Point.call, valueIn, hfd, hcount']) rfl (by simp)
      (loaded_store h.loaded) ⟨pathAt_store hpath (Or.inl (by decide)), hfd, hcount',
        fun i hi => by rw [store32_out _ _ _ _ (by omega), hdata i hi], hfits⟩
    exact ⟨z, runs_trans hrun (runs_trans hw hz), hstands⟩

theorem reply_store {path : List UInt8} {fd count : Nat} {data : Nat → UInt8}
    (h : Stands m (.store path fd count data) s) (ha : Answers s r t) :
    ∃ u, Runs (program m) t u ∧ Stands m (.closeWrite path fd r.eax) u := by
  have hfdplace : m.fd_store = m.bss + 128 := rfl
  have hresult : m.write_result = m.bss + 780 := rfl
  obtain ⟨hpath, hfd, -, -, -⟩ := h.holds
  obtain ⟨u, hu, hsits, heax⟩ := stands_resume 12 h ha rfl rfl (by simp [pieces])
  rw [answers_quiet SYS_WRITE h ha rfl (by decide)] at hsits
  obtain ⟨v, hv, hsits⟩ := sits_keep hsits (by simp [pieces]) (fixed_write_result (m := m))
  rw [heax] at hsits
  have hfd' : load32 (store32 (above s.mem) m.write_result r.eax) m.fd_store = fd := by
    rw [load32_store32_out _ _ _ _ (by omega), hfd]
  obtain ⟨w, hw, hstands⟩ := sits_stands (n := SYS_CLOSE) (.closeWrite path fd r.eax) [.mem ⟨none, m.fd_store⟩] hsits
    (by simp [pieces]) (by simp) (by decide) (by simp) (Or.inr rfl) (by simp [Point.call, valueIn, hfd']) rfl (by simp)
    (loaded_store h.loaded) ⟨pathAt_store hpath (Or.inr (by decide)), hfd', load32_store32 _ _ _ ha.word⟩
  exact ⟨w, runs_trans hu (runs_trans hv hw), hstands⟩

theorem reply_closeWrite {path : List UInt8} {fd result : Nat} (h : Stands m (.closeWrite path fd result) s)
    (ha : Answers s r t) : ∃ u, Runs (program m) t u ∧ Stands m ((Point.closeWrite path fd result).reply r) u := by
  obtain ⟨hpath, -, hresult⟩ := h.holds
  obtain ⟨u, hu, hsits, -⟩ := stands_resume 4 h ha rfl rfl (by simp [pieces])
  rw [answers_quiet SYS_CLOSE h ha rfl (by decide)] at hsits
  have hread : u.read (.mem ⟨none, m.write_result⟩) = result :=
    (fixed_steady hsits (fixed_write_result (m := m))).2.trans hresult
  have hword : result < 2 ^ 32 := by
    rw [← hresult]
    exact load32_lt _ _
  obtain ⟨v, hv, hvreg, hvmem, hvflags⟩ : ∃ v,
      effects [(.cmp (.mem ⟨none, m.write_result⟩) (.imm 0) : Ins Label)] u = some v ∧ v.reg = u.reg ∧ v.mem = u.mem ∧
      v.flags = subFlags result 0 :=
    ⟨_, rfl, rfl, rfl, by rw [← hread]; rfl⟩
  obtain ⟨w, hw, -, hyes, hno⟩ :=
    sits_cond (c := .l) (b := [.cmp (.mem ⟨none, m.write_result⟩) (.imm 0)]) .write_fail hsits
    (piece_code m (by simp [pieces])) hv (by rw [hvreg]) hvmem
  rw [hvflags, holds_l_sub_zero _ hword] at hyes hno
  have hrun := runs_trans hu hw
  simp only [Point.reply]
  by_cases hneg : neg32 result = true
  · rw [if_pos hneg]
    obtain ⟨z, hz, hstands⟩ := sits_print .writeError .msg_err_write (hyes hneg)
      (by simp [pieces]) rfl rfl rfl (by simp) h.loaded trivial
    exact ⟨z, runs_trans hrun hz, hstands⟩
  · rw [if_neg hneg]
    obtain ⟨z, hz, hstands⟩ := sits_print (.written path) .msg_write_ok (hno (by simpa using hneg))
      (by simp [pieces]) rfl rfl rfl (by simp) h.loaded hpath
    exact ⟨z, runs_trans hrun hz, hstands⟩

/-! ## `del` -/

theorem reply_delete {path : List UInt8} (h : Stands m (.delete path) s) (ha : Answers s r t) :
    ∃ u, Runs (program m) t u ∧ Stands m ((Point.delete path).reply r) u := by
  obtain ⟨u, hu, hsits, heax⟩ := stands_resume 4 h ha rfl rfl (by simp [pieces])
  rw [answers_quiet SYS_DELETE h ha rfl (by decide)] at hsits
  obtain ⟨v, hv, -, -, hyes, hno⟩ := sits_test .l .del_fail hsits (piece_code m (by simp [pieces]))
  rw [heax, holds_l_logic] at hyes hno
  have hrun := runs_trans hu hv
  simp only [Point.reply]
  by_cases hneg : neg32 r.eax = true
  · rw [if_pos hneg]
    obtain ⟨w, hw, hstands⟩ := sits_print .deleteError .msg_err_del (hyes hneg)
      (by simp [pieces]) rfl rfl rfl (by simp) h.loaded
      trivial
    exact ⟨w, runs_trans hrun hw, hstands⟩
  · rw [if_neg hneg]
    obtain ⟨w, hw, hstands⟩ := sits_print (.deleted path) .msg_del_ok (hno (by simpa using hneg))
      (by simp [pieces]) rfl rfl rfl (by simp) h.loaded h.holds
    exact ⟨w, runs_trans hrun hw, hstands⟩

/-! ## The step -/

/-- From the call of a point, and the kernel's answer, the program comes to the call of the next point. -/
theorem stands_reply {p : Point} (h : Stands m p s) (hp : p ≠ .exit) (ha : Answers s r t) :
    ∃ u, Runs (program m) t u ∧ Stands m (p.reply r) u := by
  cases p with
  | welcome => exact reply_welcome h ha
  | prompt => exact reply_prompt h ha
  | command => exact reply_command h ha
  | goodbye => exact quiet_exit h ha rfl (Or.inl rfl) rfl (by simp [pieces]) (by simp [pieces])
  | fork => exact reply_fork h ha
  | forked => exact reply_forked h ha
  | pid => exact reply_pid h ha
  | pidEnd => exact reply_pidEnd h ha
  | wait => exact reply_wait h ha
  | resume => exact reply_resume h ha
  | listing => exact reply_listing h ha
  | entry => exact reply_entry h ha
  | indent index name =>
    exact quiet_next (k := SYS_PRINT) (.name index name) [.imm m.read_buf] h ha rfl (Or.inl rfl) rfl (by simp [pieces])
      (by simp [pieces]) (by simp) (by decide) (by simp) (Or.inr rfl) rfl rfl (by simp) h.holds
  | name index name =>
    exact quiet_next (k := SYS_PRINT) (.nameEnd index)
      [.imm (m.text .msg_newline)] h ha rfl (Or.inl rfl) rfl (by simp [pieces]) (by simp [pieces]) (by simp) (by decide)
      (by simp) (Or.inr rfl) rfl rfl (by simp) h.holds.1
  | nameEnd => exact reply_nameEnd h ha
  | openRead => exact reply_openRead h ha
  | content => exact reply_content h ha
  | contentText fd text =>
    exact quiet_next (k := SYS_PRINT) (.contentEnd fd)
      [.imm (m.text .msg_newline)] h ha rfl (Or.inl rfl) rfl (by simp [pieces]) (by simp [pieces]) (by simp) (by decide)
      (by simp) (Or.inr rfl) rfl rfl (by simp) h.holds.1
  | contentEnd fd =>
    have hfd : load32 (above s.mem) m.fd_store = fd := h.holds
    exact quiet_next (k := SYS_CLOSE) (.closeRead fd)
      [.mem ⟨none, m.fd_store⟩] h ha rfl (Or.inl rfl) rfl (by simp [pieces]) (by simp [pieces]) (by simp) (by decide)
      (by simp) (Or.inr rfl) (by simp [Point.call, valueIn, hfd]) rfl (by simp) hfd
  | closeRead => exact quiet_exit h ha rfl (Or.inr rfl) rfl (by simp [pieces]) (by simp [pieces])
  | readError => exact quiet_exit h ha rfl (Or.inl rfl) rfl (by simp [pieces]) (by simp [pieces])
  | ask => exact reply_ask h ha
  | input => exact reply_input h ha
  | openWrite => exact reply_openWrite h ha
  | store => exact reply_store h ha
  | closeWrite => exact reply_closeWrite h ha
  | written path =>
    exact quiet_next (k := SYS_PRINT) (.writtenPath path) [.imm m.path_buf] h ha rfl (Or.inl rfl) rfl (by simp [pieces])
      (by simp [pieces]) (by simp) (by decide) (by simp) (Or.inr rfl) rfl rfl (by simp) h.holds
  | writtenPath path =>
    exact quiet_next (k := SYS_PRINT) .writtenEnd [.imm (m.text .msg_newline)] h ha rfl (Or.inl rfl) rfl
      (by simp [pieces]) (by simp [pieces]) (by simp) (by decide) (by simp) (Or.inr rfl) rfl rfl (by simp) trivial
  | writtenEnd => exact quiet_exit h ha rfl (Or.inl rfl) rfl (by simp [pieces]) (by simp [pieces])
  | writeError => exact quiet_exit h ha rfl (Or.inl rfl) rfl (by simp [pieces]) (by simp [pieces])
  | delete => exact reply_delete h ha
  | deleted path =>
    exact quiet_next (k := SYS_PRINT) (.deletedPath path) [.imm m.path_buf] h ha rfl (Or.inl rfl) rfl (by simp [pieces])
      (by simp [pieces]) (by simp) (by decide) (by simp) (Or.inr rfl) rfl rfl (by simp) h.holds
  | deletedPath path =>
    exact quiet_next (k := SYS_PRINT) .deletedEnd [.imm (m.text .msg_newline)] h ha rfl (Or.inl rfl) rfl
      (by simp [pieces]) (by simp [pieces]) (by simp) (by decide) (by simp) (Or.inr rfl) rfl rfl (by simp) trivial
  | deletedEnd => exact quiet_exit h ha rfl (Or.inl rfl) rfl (by simp [pieces]) (by simp [pieces])
  | deleteError => exact quiet_exit h ha rfl (Or.inl rfl) rfl (by simp [pieces]) (by simp [pieces])
  | unknown => exact quiet_exit h ha rfl (Or.inl rfl) rfl (by simp [pieces]) (by simp [pieces])
  | exit => exact absurd rfl hp

end PeachOS.Shell
