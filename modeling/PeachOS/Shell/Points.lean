import PeachOS.Shell.Calls
import Mathlib.Data.List.GetD
import Mathlib.Data.List.TakeWhile

/-!
# The points of the shell in the program

Where the call of a point is in the code, with which number and arguments, and what the program remembers there.
-/

open PeachOS.Lib.Asm

namespace PeachOS.Shell

/-! ## Texts in memory -/

theorem cut_succ (k a : Nat) (μ : Nat → UInt8) :
    cut (k + 1) (fun i => μ (a + i)) = if μ a = 0 then [] else μ a :: cut k fun i => μ (a + 1 + i) := by
  unfold cut
  rw [List.range_succ_eq_map, List.map_cons, List.map_map, List.takeWhile_cons]
  have hshift : (fun i => μ (a + i)) ∘ Nat.succ = fun i => μ (a + 1 + i) := by
    funext i
    rw [Function.comp_apply, Nat.succ_eq_add_one, Nat.add_comm i 1, ← Nat.add_assoc]
  rw [hshift]
  by_cases h : μ a = 0
  · simp [h]
  · simp [h]

theorem cut_bytesAt (max a : Nat) (μ : Nat → UInt8) (l : List UInt8) (h : BytesAt μ a (l ++ [0])) (h0 : 0 ∉ l)
    (hlen : l.length < max) : cut max (fun i => μ (a + i)) = l := by
  obtain ⟨k, rfl⟩ : ∃ k, max = k + 1 := ⟨max - 1, by omega⟩
  induction l generalizing k a with
  | nil => rw [cut_succ, if_pos h.1]
  | cons c l ih =>
    rw [List.mem_cons, not_or] at h0
    rw [List.length_cons] at hlen
    obtain ⟨j, rfl⟩ : ∃ j, k = j + 1 := ⟨k - 1, by omega⟩
    have hc : μ a = c := h.1
    rw [cut_succ, hc, if_neg (Ne.symm h0.1), ih (a + 1) h.2 h0.2 j (by omega)]

theorem cut_no_nul (max : Nat) (s : Nat → UInt8) : 0 ∉ cut max s := by
  intro h
  have := List.mem_takeWhile_imp h
  simp at this

theorem cut_length_le (max : Nat) (s : Nat → UInt8) : (cut max s).length ≤ max := by
  unfold cut
  exact (List.takeWhile_prefix _).length_le.trans_eq (by rw [List.length_map, List.length_range])

theorem prefix_cut (max a : Nat) (μ : Nat → UInt8) (l : List UInt8) (h0 : 0 ∉ l) (hlen : l.length ≤ max) :
    l <+: cut max (fun i => μ (a + i)) ↔ BytesAt μ a l := by
  induction l generalizing max a with
  | nil => exact iff_of_true List.nil_prefix trivial
  | cons c l ih =>
    obtain ⟨k, rfl⟩ : ∃ k, max = k + 1 := ⟨max - 1, by rw [List.length_cons] at hlen; omega⟩
    rw [List.mem_cons, not_or] at h0
    rw [List.length_cons] at hlen
    have hrest := ih k (a + 1) h0.2 (by omega)
    rw [cut_succ, BytesAt, ← hrest]
    split
    · rename_i hz
      refine iff_of_false (fun h => by cases List.prefix_nil.mp h) (fun h => h0.1 ?_)
      rw [← hz, h.1]
    · rw [List.cons_prefix_cons, eq_comm]

variable (m : Image)

theorem chars_no_nul (t : Text) : 0 ∉ t.chars ∧ t.chars.length ≤ 100 := by
  cases t <;> decide

theorem room_le (t : Text) (ts : List Text) (ht : t ∈ ts) :
    Text.room (ts.takeWhile (· ≠ t)) + (t.chars.length + 1) ≤ Text.room ts := by
  induction ts with
  | nil => cases ht
  | cons u ts ih =>
    by_cases hu : u = t
    · subst hu
      simp [Text.room]
    · have hmem : t ∈ ts := (List.mem_cons.mp ht).resolve_left (Ne.symm hu)
      rw [List.takeWhile_cons_of_pos (by simpa using hu), Text.room, Text.room, Nat.add_assoc]
      exact Nat.add_le_add_left (ih hmem) _

theorem text_mem (t : Text) : t ∈ Text.all := by
  cases t <;> simp [Text.all]

theorem text_room (t : Text) : 0x400000 ≤ m.text t ∧ m.text t + t.chars.length < m.bss := by
  have hoff := room_le t Text.all (text_mem t)
  have h1 := m.data_low
  have h2 := m.data_bss
  unfold Text.size at h2
  unfold Image.text Text.offset
  omega

theorem loaded_bytes {μ : Nat → UInt8} (h : Loaded m μ) (t : Text) : BytesAt μ (m.text t) (t.chars ++ [0]) := by
  rw [bytesAt_iff]
  intro i hi
  rw [List.length_append, List.length_singleton] at hi
  rw [h t i (by omega)]
  by_cases hlt : i < t.chars.length
  · rw [List.getD_append _ _ _ _ hlt]
  · obtain rfl : i = t.chars.length := by omega
    simp

theorem loaded_cut {μ : Nat → UInt8} (h : Loaded m μ) (t : Text) : cut 1023 (fun i => μ (m.text t + i)) = t.chars :=
  cut_bytesAt 1023 _ μ _ (loaded_bytes m h t) (chars_no_nul t).1 (by have := (chars_no_nul t).2; omega)

/-! ## The path of a command -/

theorem lineAt_cut (j k a : Nat) (μ : Nat → UInt8) (hend : μ (a + j) = 0) (hjk : j ≤ k) :
    lineAt μ k a = (cut j fun i => μ (a + i)).takeWhile fun c => c ≠ 10 ∧ c ≠ 13 := by
  induction j generalizing k a with
  | zero =>
    cases k with
    | zero => rfl
    | succ k =>
      have hends : Ends (μ a) := Or.inl hend
      rw [lineAt, if_pos hends]
      rfl
  | succ j ih =>
    obtain ⟨k, rfl⟩ : ∃ i, k = i + 1 := ⟨k - 1, by omega⟩
    rw [lineAt, cut_succ, ih k (a + 1) (by rw [Nat.add_assoc, Nat.add_comm 1]; exact hend) (by omega)]
    by_cases h0 : μ a = 0
    · simp [Ends, h0]
    · by_cases hends : μ a = 10 ∨ μ a = 13
      · rcases hends with h | h <;> simp [Ends, h]
      · rw [not_or] at hends
        simp [Ends, h0, hends]

theorem cut_drop (n k a : Nat) (μ : Nat → UInt8) (hn : n ≤ (cut k fun i => μ (a + i)).length) :
    (cut k fun i => μ (a + i)).drop n = cut (k - n) fun i => μ (a + n + i) := by
  induction n generalizing k a with
  | zero => rfl
  | succ n ih =>
    cases k with
    | zero => cases hn
    | succ k =>
      rw [cut_succ] at hn ⊢
      split at hn
      · cases hn
      · rename_i h0
        rw [if_neg h0, List.drop_succ_cons, ih k (a + 1) (by rw [List.length_cons] at hn; omega), Nat.add_sub_add_right,
          Nat.add_right_comm a 1 n, Nat.add_assoc a n 1]

theorem path_eq (n : Nat) (μ : Nat → UInt8) (hend : μ (m.cmd_buf + 63) = 0)
    (hn : n ≤ (cut 63 fun i => μ (m.cmd_buf + i)).length) :
    ascii "0:/" ++ lineAt μ 124 (m.cmd_buf + n) = pathFor ((cut 63 fun i => μ (m.cmd_buf + i)).drop n) := by
  have hlen := cut_length_le 63 fun i => μ (m.cmd_buf + i)
  have hplace : m.cmd_buf + n + (63 - n) = m.cmd_buf + 63 := by omega
  unfold pathFor
  rw [cut_drop n 63 _ μ hn, lineAt_cut (63 - n) 124 _ μ (by rw [hplace]; exact hend) (by omega), List.take_of_length_le]
  refine (List.takeWhile_prefix _).length_le.trans ((cut_length_le _ _).trans ?_)
  omega

theorem pathFor_cut (k : Nat) (s : Nat → UInt8) (hk : k ≤ 63) :
    0 ∉ pathFor (cut k s) ∧ (pathFor (cut k s)).length ≤ 66 := by
  have hsub : ∀ c, c ∈ ((cut k s).takeWhile fun c => c ≠ 10 ∧ c ≠ 13).take 124 → c ∈ cut k s := fun c h =>
    (List.takeWhile_prefix _).subset (List.take_subset _ _ h)
  unfold pathFor
  constructor
  · rw [List.mem_append, not_or]
    exact ⟨by decide, fun h => cut_no_nul k s (hsub 0 h)⟩
  · have h1 : ((cut k s).takeWhile fun c => c ≠ 10 ∧ c ≠ 13).length ≤ k :=
      (List.takeWhile_prefix _).length_le.trans (cut_length_le k s)
    rw [List.length_append, List.length_take]
    have h2 : (ascii "0:/").length = 3 := rfl
    omega

/-! ## Points -/

/-- The path is in `path_buf`. -/
structure PathAt (μ : Nat → UInt8) (path : List UInt8) : Prop where
  bytes : BytesAt μ m.path_buf (path ++ [0])
  no_nul : 0 ∉ path
  fits : path.length ≤ 66

namespace Point

/-- The block and the place in it of the point's call. The shell exits from several places. -/
def site : Point → Option (Label × Nat)
  | welcome => some (._start, 2)
  | prompt => some (.prompt_loop, 6)
  | command => some (.read_again, 3)
  | goodbye => some (.do_exit_now, 2)
  | fork _ => some (.read_again, 20)
  | forked _ => some (.parent_wait, 3)
  | pid _ => some (.pi_print, 3)
  | pidEnd _ => some (.parent_wait, 10)
  | wait _ => some (.wait_loop, 2)
  | resume => some (.wait_loop, 8)
  | listing => some (.do_ls, 2)
  | entry _ => some (.ls_loop, 8)
  | indent _ _ => some (.ls_loop, 14)
  | name _ _ => some (.ls_loop, 18)
  | nameEnd _ => some (.ls_loop, 22)
  | openRead _ => some (.do_cat, 7)
  | content _ => some (.do_cat, 16)
  | contentText _ _ => some (.do_cat, 22)
  | contentEnd _ => some (.do_cat, 26)
  | closeRead _ => some (.do_cat, 30)
  | readError => some (.cat_fail, 2)
  | ask _ => some (.do_write, 6)
  | input _ => some (.do_write, 15)
  | openWrite _ _ _ => some (.do_write, 21)
  | store _ _ _ _ => some (.do_write, 30)
  | closeWrite _ _ _ => some (.do_write, 35)
  | written _ => some (.do_write, 41)
  | writtenPath _ => some (.do_write, 45)
  | writtenEnd => some (.do_write, 49)
  | writeError => some (.write_fail, 2)
  | delete _ => some (.do_del, 6)
  | deleted _ => some (.do_del, 12)
  | deletedPath _ => some (.do_del, 16)
  | deletedEnd => some (.do_del, 20)
  | deleteError => some (.del_fail, 2)
  | unknown => some (.read_again, 56)
  | exit => none

/-- The number of the call, and its arguments. -/
def call : Point → Nat × List Nat
  | welcome => (SYS_PRINT, [m.text .msg_welcome])
  | prompt => (SYS_PRINT, [m.text .msg_prompt])
  | command => (SYS_READLINE, [m.cmd_buf, 63])
  | goodbye => (SYS_PRINT, [m.text .msg_exit])
  | fork _ => (SYS_FORK, [])
  | forked _ => (SYS_PRINT, [m.text Text.msg_fork_prefix])
  | pid n => (SYS_PRINT, [m.int_buf + 10 - (decimal n).length])
  | pidEnd _ => (SYS_PRINT, [m.text .msg_newline])
  | wait n => (SYS_WAIT, [n])
  | resume => (SYS_PRINT, [m.text .msg_parent_resume])
  | listing => (SYS_PRINT, [m.text .msg_ls_header])
  | entry index => (SYS_READDIR, [index, m.read_buf, 64])
  | indent _ _ => (SYS_PRINT, [m.text .msg_ls_indent])
  | name _ _ => (SYS_PRINT, [m.read_buf])
  | nameEnd _ => (SYS_PRINT, [m.text .msg_newline])
  | openRead _ => (SYS_OPEN, [m.path_buf, FILE_MODE_READ])
  | content fd => (SYS_READ, [fd, m.read_buf, 63])
  | contentText _ _ => (SYS_PRINT, [m.read_buf])
  | contentEnd _ => (SYS_PRINT, [m.text .msg_newline])
  | closeRead fd => (SYS_CLOSE, [fd])
  | readError => (SYS_PRINT, [m.text .msg_err_read])
  | ask _ => (SYS_PRINT, [m.text .msg_write_prompt])
  | input _ => (SYS_READLINE, [m.write_buf, 511])
  | openWrite _ _ _ => (SYS_OPEN, [m.path_buf, FILE_MODE_WRITE])
  | store _ fd count _ => (SYS_WRITE, [fd, m.write_buf, count])
  | closeWrite _ fd _ => (SYS_CLOSE, [fd])
  | written _ => (SYS_PRINT, [m.text .msg_write_ok])
  | writtenPath _ => (SYS_PRINT, [m.path_buf])
  | writtenEnd => (SYS_PRINT, [m.text .msg_newline])
  | writeError => (SYS_PRINT, [m.text .msg_err_write])
  | delete _ => (SYS_DELETE, [m.path_buf])
  | deleted _ => (SYS_PRINT, [m.text .msg_del_ok])
  | deletedPath _ => (SYS_PRINT, [m.path_buf])
  | deletedEnd => (SYS_PRINT, [m.text .msg_newline])
  | deleteError => (SYS_PRINT, [m.text .msg_err_del])
  | unknown => (SYS_PRINT, [m.text .msg_unknown])
  | exit => (SYS_EXIT, [])

/-- What is on the stack at the call. `print_int` has its frame there. -/
def depth (p : Point) : Nat :=
  match p with
  | pid _ => 32
  | p => 4 * (p.call m).2.length

/-- What the program remembers. -/
def Holds (μ : Nat → UInt8) : Point → Prop
  | prompt | command => μ (m.cmd_buf + 63) = 0
  | fork line =>
    μ (m.cmd_buf + 63) = 0 ∧ cut 63 (fun i => μ (m.cmd_buf + i)) = line ∧ ¬ Text.chars .cmd_exit <+: line
  | forked n | pidEnd n | wait n => load32 μ m.child_pid = n
  | pid n => load32 μ m.child_pid = n ∧ BytesAt μ (m.int_buf + 10 - (decimal n).length) (decimal n ++ [0])
  | entry index | nameEnd index => load32 μ m.ls_index = index
  | indent index s | name index s => load32 μ m.ls_index = index ∧ cut 1023 (fun i => μ (m.read_buf + i)) = s
  | content fd | contentEnd fd | closeRead fd => load32 μ m.fd_store = fd
  | contentText fd text => load32 μ m.fd_store = fd ∧ cut 1023 (fun i => μ (m.read_buf + i)) = text
  | openRead path | ask path | input path | written path | writtenPath path | delete path | deleted path
  | deletedPath path => PathAt m μ path
  | openWrite path count data =>
    PathAt m μ path ∧ load32 μ m.write_count = count ∧ (∀ i < 511, μ (m.write_buf + i) = data i) ∧
      (count < 511 ∨ neg32 count)
  | store path fd count data =>
    PathAt m μ path ∧ load32 μ m.fd_store = fd ∧ load32 μ m.write_count = count ∧
      (∀ i < 511, μ (m.write_buf + i) = data i) ∧ (count < 511 ∨ neg32 count)
  | closeWrite path fd result => PathAt m μ path ∧ load32 μ m.fd_store = fd ∧ load32 μ m.write_result = result
  | _ => True

end Point

/-- The program is at the call of the point `p`. -/
structure Stands (p : Point) (s : Core) : Prop where
  int : (program m).step s = .int 0x80 (s.goto (s.pc + 1))
  pc : ∀ l n, p.site = some (l, n) → s.pc = (program m).addr l + n
  eax : s.reg .eax = (p.call m).1
  esp : s.reg .esp + p.depth m = 0x3FF000
  args : ∀ i v, (p.call m).2[i]? = some v → arg s i = v
  loaded : Loaded m (above s.mem)
  holds : p.Holds m (above s.mem)
  /-- Behind the call of `print_int`. -/
  back : ∀ n, p = .pid n → load32 s.mem 0x3FEFF8 = (program m).addr .parent_wait + 7

/-! ## Requests -/

variable {m} {s : Core}

theorem above_from (mem : Nat → UInt8) (a : Nat) (ha : 0x3FF000 ≤ a) :
    (fun i => above mem (a + i)) = fun i => mem (a + i) := by
  funext i
  exact above_apply (by omega)

theorem request_print {a : Nat} {text : List UInt8} (heax : s.reg .eax = SYS_PRINT) (harg : arg s 0 = a)
    (ha : 0x3FF000 ≤ a) (htext : cut 1023 (fun i => above s.mem (a + i)) = text) :
    requestOf s = some (.print text) := by
  rw [above_from _ _ ha] at htext
  simp only [requestOf, heax, SYS_PRINT, harg, htext]

theorem path_cut {path : List UInt8} {μ : Nat → UInt8} (h : PathAt m μ path) (max : Nat) (hmax : 66 < max) :
    cut max (fun i => μ (m.path_buf + i)) = path :=
  cut_bytesAt max _ μ path h.bytes h.no_nul (by have := h.fits; omega)

theorem path_room : 0x3FF000 ≤ m.path_buf := by
  have := image_room m
  unfold Image.path_buf
  omega

theorem read_room : 0x3FF000 ≤ m.read_buf := by
  have := image_room m
  unfold Image.read_buf
  omega

theorem request_open {path : List UInt8} {mode : Nat} (heax : s.reg .eax = SYS_OPEN) (harg : arg s 0 = m.path_buf)
    (harg1 : arg s 1 = mode) (hpath : PathAt m (above s.mem) path) : requestOf s = some (.open_ path mode) := by
  have htext := path_cut hpath 107 (by decide)
  rw [above_from _ _ path_room] at htext
  simp only [requestOf, heax, SYS_OPEN, harg, harg1, htext]

theorem request_delete {path : List UInt8} (heax : s.reg .eax = SYS_DELETE) (harg : arg s 0 = m.path_buf)
    (hpath : PathAt m (above s.mem) path) : requestOf s = some (.delete path) := by
  have htext := path_cut hpath 107 (by decide)
  rw [above_from _ _ path_room] at htext
  simp only [requestOf, heax, SYS_DELETE, harg, htext]

/-- The bytes to be written are those that were read, also if the line was not. -/
theorem request_write {fd count : Nat} {data : Nat → UInt8} (heax : s.reg .eax = SYS_WRITE) (harg : arg s 0 = fd)
    (harg1 : arg s 1 = m.write_buf) (harg2 : arg s 2 = count)
    (hdata : ∀ i < 511, above s.mem (m.write_buf + i) = data i) (hcount : count < 511 ∨ neg32 count) :
    requestOf s = some (.write fd count (if count < 4096 then (List.range count).map data else [])) := by
  have hroom := image_room m
  simp only [requestOf, heax, SYS_WRITE, harg, harg1, harg2, Option.some.injEq, Request.write.injEq, true_and]
  by_cases hlt : count < 4096
  · rw [if_pos hlt, if_pos hlt]
    refine List.map_congr_left fun i hi => ?_
    have hshort : count < 511 := by
      rcases hcount with h | h
      · exact h
      · simp only [neg32, decide_eq_true_eq] at h
        omega
    rw [List.mem_range] at hi
    rw [← hdata i (by omega), above_apply]
    unfold Image.write_buf
    omega
  · rw [if_neg hlt, if_neg hlt]

theorem stands_print {p : Point} {a : Nat} {text : List UInt8} (h : Stands m p s) (hcall : p.call m = (SYS_PRINT, [a]))
    (ha : 0x3FF000 ≤ a) (htext : cut 1023 (fun i => above s.mem (a + i)) = text) :
    requestOf s = some (.print text) := by
  have heax := h.eax
  have hargs := h.args 0 a
  rw [hcall] at heax hargs
  exact request_print heax (hargs rfl) ha htext

theorem stands_text {p : Point} {t : Text} (h : Stands m p s) (hcall : p.call m = (SYS_PRINT, [m.text t])) :
    requestOf s = some (.print t.chars) := by
  refine stands_print h hcall ?_ (loaded_cut m h.loaded t)
  have := text_room m t
  omega

theorem stands_request {p : Point} (h : Stands m p s) : requestOf s = some p.request := by
  have heax := h.eax
  have hargs := h.args
  have hholds := h.holds
  cases p with
  | welcome | prompt | goodbye | forked | pidEnd | resume | listing | indent | nameEnd | contentEnd | readError
  | ask | written
  | writtenEnd | writeError | deleted | deletedEnd | deleteError | unknown => exact stands_text h rfl
  | command => simp only [requestOf, heax, Point.call, SYS_READLINE, hargs 1 _ rfl, Point.request]
  | input => simp only [requestOf, heax, Point.call, SYS_READLINE, hargs 1 _ rfl, Point.request]
  | fork => simp only [requestOf, heax, Point.call, SYS_FORK, Point.request]
  | exit => simp only [requestOf, heax, Point.call, SYS_EXIT, Point.request]
  | pid n =>
    have hlen := decimal_length n (by rw [← hholds.1]; exact load32_lt _ _)
    have hroom := image_room m
    refine stands_print h rfl (by unfold Image.int_buf; omega)
      (cut_bytesAt _ _ _ _ hholds.2 (decimal_no_nul n) (by omega))
  | wait => simp only [requestOf, heax, Point.call, SYS_WAIT, hargs 0 _ rfl, Point.request]
  | closeRead => simp only [requestOf, heax, Point.call, SYS_CLOSE, hargs 0 _ rfl, Point.request]
  | closeWrite => simp only [requestOf, heax, Point.call, SYS_CLOSE, hargs 0 _ rfl, Point.request]
  | entry => simp only [requestOf, heax, Point.call, SYS_READDIR, hargs 0 _ rfl, hargs 2 _ rfl, Point.request]
  | content => simp only [requestOf, heax, Point.call, SYS_READ, hargs 0 _ rfl, hargs 2 _ rfl, Point.request]
  | name | contentText => exact stands_print h rfl read_room hholds.2
  | writtenPath | deletedPath => exact stands_print h rfl path_room (path_cut hholds 1023 (by decide))
  | openRead => exact request_open heax (hargs 0 _ rfl) (hargs 1 _ rfl) hholds
  | openWrite => exact request_open heax (hargs 0 _ rfl) (hargs 1 _ rfl) hholds.1
  | store =>
    obtain ⟨-, -, -, hdata, hcount⟩ := hholds
    exact request_write heax (hargs 0 _ rfl) (hargs 1 _ rfl) (hargs 2 _ rfl) hdata hcount
  | delete => exact request_delete heax (hargs 0 _ rfl) hholds

end PeachOS.Shell
