import PeachOS.Spec.Terminal
import Mathlib.Data.List.GetD

/-!
# The terminal refines a transcript

The invariant ties the cursor to the transcript: the cursor is behind the last character of the current row, and the
rows below it are blank.
-/

namespace PeachOS.Screen

open Terminal

variable {t : Terminal} {s : Transcript}

/-! ## Writes -/

theorem make_char_byte (c colour : UInt8) : (terminal_make_char c colour).toUInt8 = c := by
  have hhigh : (colour.toUInt16 <<< 8).toUInt8 = 0 := by
    apply UInt8.toBitVec_inj.mp
    simp
  have hlow : c.toInt8.toInt16.toUInt16.toUInt8 = c := by
    apply UInt8.toBitVec_inj.mp
    rw [UInt16.toBitVec_toUInt8]
    show (BitVec.signExtend 16 c.toBitVec).setWidth 8 = c.toBitVec
    ext i hi
    simp [BitVec.getElem_signExtend, hi, show i < 16 by omega]
  unfold terminal_make_char
  rw [UInt16.toUInt8_or, hhigh, hlow, UInt8.zero_or]

/-- Nothing but the video memory changes, and that only where `P` holds. -/
structure Draws (P : Nat → Prop) (v : Nat → UInt16) (t t' : Terminal) : Prop where
  row : t'.terminal_row = t.terminal_row
  col : t'.terminal_col = t.terminal_col
  inside : ∀ i, P i → t'.video_mem i = v i
  outside : ∀ i, ¬ P i → t'.video_mem i = t.video_mem i
  written : ∀ i ∈ t'.written, i ∈ t.written ∨ P i

theorem draws_set {t' : Terminal} {P : Nat → Prop} {v : Nat → UInt16} (i : Nat) (x : UInt16)
    (h : Draws P v (t.set i x) t') (hi : ¬ P i) (hv : v i = x) : Draws (fun j => j = i ∨ P j) v t t' := by
  refine ⟨h.row, h.col, ?_, ?_, ?_⟩
  · rintro j (rfl | hj)
    · rw [h.outside j hi, hv]
      exact if_pos rfl
    · exact h.inside j hj
  · intro j hj
    rw [h.outside j fun hp => hj (Or.inr hp)]
    exact if_neg fun he => hj (Or.inl he)
  · intro j hj
    rcases h.written j hj with hw | hp
    · rcases List.mem_cons.mp hw with rfl | hw
      · exact Or.inr (Or.inl rfl)
      · exact Or.inl hw
    · exact Or.inr (Or.inr hp)

theorem draws_congr {t' : Terminal} {P Q : Nat → Prop} {v w : Nat → UInt16} (h : Draws P v t t')
    (hPQ : ∀ i, P i ↔ Q i) (hv : ∀ i, Q i → v i = w i) : Draws Q w t t' :=
  ⟨h.row, h.col, fun i hi => (h.inside i ((hPQ i).mpr hi)).trans (hv i hi),
    fun i hi => h.outside i fun hp => hi ((hPQ i).mp hp), fun i hi => (h.written i hi).imp_right (hPQ i).mp⟩

theorem draws_none {P : Nat → Prop} (v : Nat → UInt16) (t : Terminal) (hP : ∀ i, ¬ P i) : Draws P v t t :=
  ⟨rfl, rfl, fun i h => absurd h (hP i), fun _ _ => rfl, fun _ h => Or.inl h⟩

theorem draws_trans {t' t'' : Terminal} {P Q : Nat → Prop} {v : Nat → UInt16} (h : Draws P v t t')
    (h' : Draws Q v t' t'') : Draws (fun i => P i ∨ Q i) v t t'' := by
  refine ⟨h'.row.trans h.row, h'.col.trans h.col, ?_, ?_, ?_⟩
  · intro i hi
    by_cases hq : Q i
    · exact h'.inside i hq
    · rw [h'.outside i hq]
      exact h.inside i (hi.resolve_right hq)
  · intro i hi
    rw [h'.outside i fun hq => hi (Or.inr hq)]
    exact h.outside i fun hp => hi (Or.inl hp)
  · intro i hi
    rcases h'.written i hi with hw | hq
    · exact (h.written i hw).imp_right Or.inl
    · exact Or.inr (Or.inr hq)

/-! ## The loops -/

theorem scroll_row_draws (y n x : Nat) (t : Terminal) :
    Draws (fun i => y * 80 + x ≤ i ∧ i < y * 80 + x + n) (fun i => t.video_mem (i + 80)) t
      (terminal_scroll_row (y + 1) n x t) := by
  induction n generalizing x t with
  | zero => exact draws_none _ t fun i => by omega
  | succ n ih =>
    rw [terminal_scroll_row, show (y + 1) * VGA_WIDTH + x = y * 80 + x + 80 by unfold VGA_WIDTH; omega,
      show (y + 1 - 1) * VGA_WIDTH + x = y * 80 + x from rfl]
    have hrest := ih (x + 1) (t.set (y * 80 + x) (t.video_mem (y * 80 + x + 80)))
    -- the cells that are read are below those that are written
    have hread := draws_congr hrest (Q := fun i => y * 80 + (x + 1) ≤ i ∧ i < y * 80 + (x + 1) + n)
      (w := fun i => t.video_mem (i + 80)) (fun _ => Iff.rfl) (fun i hi => if_neg (by omega))
    have hset := draws_set _ _ hread (by omega) rfl
    exact draws_congr hset (fun i => by omega) (fun _ _ => rfl)

theorem scroll_rows_draws (y n : Nat) (t : Terminal) :
    Draws (fun i => y * 80 ≤ i ∧ i < (y + n) * 80) (fun i => t.video_mem (i + 80)) t
      (terminal_scroll_rows n (y + 1) t) := by
  induction n generalizing y t with
  | zero => exact draws_none _ t fun i => by omega
  | succ n ih =>
    rw [terminal_scroll_rows]
    have hrow := scroll_row_draws y VGA_WIDTH 0 t
    have hrest := draws_congr (ih (y + 1) (terminal_scroll_row (y + 1) VGA_WIDTH 0 t))
      (Q := fun i => (y + 1) * 80 ≤ i ∧ i < (y + 1 + n) * 80) (w := fun i => t.video_mem (i + 80)) (fun _ => Iff.rfl)
      (fun i hi => hrow.outside (i + 80) (by unfold VGA_WIDTH; omega))
    exact draws_congr (draws_trans hrow hrest) (fun i => by unfold VGA_WIDTH; omega) (fun _ _ => rfl)

theorem scroll_last_draws (n x : Nat) (t : Terminal) :
    Draws (fun i => 19 * 80 + x ≤ i ∧ i < 19 * 80 + x + n) (fun _ => terminal_make_char 32 0) t
      (terminal_scroll_last n x t) := by
  induction n generalizing x t with
  | zero => exact draws_none _ t fun i => by omega
  | succ n ih =>
    have hset := draws_set _ _ (ih (x + 1) (t.set (19 * 80 + x) (terminal_make_char 32 0))) (by omega) rfl
    exact draws_congr hset (fun i => by omega) (fun _ _ => rfl)

theorem scroll_draws (t : Terminal) :
    Draws (fun i => i < 1600) (fun i => if i < 1520 then t.video_mem (i + 80) else terminal_make_char 32 0) t
      t.terminal_scroll := by
  have hrows := scroll_rows_draws 0 (VGA_HEIGHT - 1) t
  have hlast := scroll_last_draws VGA_WIDTH 0 (terminal_scroll_rows (VGA_HEIGHT - 1) 1 t)
  have hrows' := draws_congr hrows (Q := fun i => i < 1520)
    (w := fun i => if i < 1520 then t.video_mem (i + 80) else terminal_make_char 32 0)
    (fun i => by unfold VGA_HEIGHT; omega) (fun i hi => (if_pos hi).symm)
  have hlast' := draws_congr hlast (Q := fun i => 1520 ≤ i ∧ i < 1600)
    (w := fun i => if i < 1520 then t.video_mem (i + 80) else terminal_make_char 32 0)
    (fun i => by unfold VGA_WIDTH; omega) (fun i hi => (if_neg (by omega)).symm)
  exact draws_congr (draws_trans hrows' hlast') (fun i => by omega) (fun _ _ => rfl)

theorem initialize_row_draws (y n x : Nat) (t : Terminal) :
    Draws (fun i => y * 80 + x ≤ i ∧ i < y * 80 + x + n) (fun _ => terminal_make_char 32 0) t
      (terminal_initialize_row y n x t) := by
  induction n generalizing x t with
  | zero => exact draws_none _ t fun i => by omega
  | succ n ih =>
    have hset := draws_set _ _ (ih (x + 1) (t.set (y * 80 + x) (terminal_make_char 32 0))) (by omega) rfl
    exact draws_congr hset (fun i => by omega) (fun _ _ => rfl)

theorem initialize_rows_draws (y n : Nat) (t : Terminal) :
    Draws (fun i => y * 80 ≤ i ∧ i < (y + n) * 80) (fun _ => terminal_make_char 32 0) t
      (terminal_initialize_rows n y t) := by
  induction n generalizing y t with
  | zero => exact draws_none _ t fun i => by omega
  | succ n ih =>
    have hrest := draws_trans (initialize_row_draws y VGA_WIDTH 0 t)
      (ih (y + 1) (terminal_initialize_row y VGA_WIDTH 0 t))
    exact draws_congr hrest (fun i => by unfold VGA_WIDTH; omega) (fun _ _ => rfl)

/-! ## The invariant -/

/-- The first row of the transcript that is on the screen. -/
def top (s : Transcript) : Nat := s.closed.length - 19

/-- The screen shows the transcript, and the cursor is in its current row. -/
structure Shown (t : Terminal) (s : Transcript) : Prop where
  written : ∀ i ∈ t.written, i < 1600
  row : t.terminal_row = s.closed.length - top s
  shows : ∀ y < 20, ∀ x < 80, t.char y x = (s.rows.getD (top s + y) []).getD x 32

structure ScreenInv (t : Terminal) (s : Transcript) : Prop extends Shown t s where
  short : s.current.length < 80
  col : t.terminal_col = s.current.length

theorem cell_eq (s : Transcript) (y x : Nat) : s.cell y x = (s.rows.getD (top s + y) []).getD x 32 := by
  have htop : s.rows.length - VGA_HEIGHT = top s := by
    simp [Transcript.rows, top, VGA_HEIGHT]
  unfold Transcript.cell Transcript.lastRows
  rw [htop]
  simp [List.getD_eq_getElem?_getD]

theorem refines_of_inv (h : ScreenInv t s) : t.Refines s := by
  have hrow := h.row
  have hcol := h.col
  have hshort := h.short
  refine ⟨h.written, ?_, ?_, ?_⟩
  · unfold VGA_HEIGHT top at *
    omega
  · unfold VGA_WIDTH
    omega
  · intro y hy x hx
    rw [cell_eq]
    exact h.shows y hy x hx

theorem u16_of_lt (n : Nat) (h : n < 65536) : u16 (n : Int) = n := by
  unfold u16
  omega

theorem char_eq (t : Terminal) (y x : Nat) : t.char y x = (t.video_mem (y * 80 + x)).toUInt8 := rfl

theorem row_le (h : Shown t s) : t.terminal_row < 20 ∧ top s + t.terminal_row = s.closed.length := by
  have hrow := h.row
  unfold top at *
  omega

theorem rows_getD (s : Transcript) (l : List UInt8) (i : Nat) :
    (Transcript.rows { s with current := l }).getD i [] = if i = s.closed.length then l else s.rows.getD i [] := by
  unfold Transcript.rows
  rcases Nat.lt_trichotomy i s.closed.length with hlt | heq | hgt
  · rw [if_neg (by omega), List.getD_append _ _ _ _ hlt, List.getD_append _ _ _ _ hlt]
  · subst heq
    simp [List.getD_eq_getElem?_getD]
  · rw [if_neg (by omega), List.getD_eq_default _ _ (by simp; omega), List.getD_eq_default _ _ (by simp; omega)]

theorem close_rows (s : Transcript) (i : Nat) : s.close.rows.getD i [] = s.rows.getD i [] := by
  unfold Transcript.close Transcript.rows
  rcases Nat.lt_trichotomy i (s.closed ++ [s.current]).length with hlt | heq | hgt
  · rw [List.getD_append _ _ _ _ hlt]
  · subst heq
    simp [List.getD_eq_getElem?_getD]
  · rw [List.getD_eq_default _ _ (by simp at hgt ⊢; omega), List.getD_eq_default _ _ (by omega)]

/-! ## Characters -/

theorem putchar_char (t : Terminal) (x₀ y₀ y x : Nat) (c colour : UInt8) (hx₀ : x₀ < 80) (hx : x < 80) :
    (t.terminal_putchar x₀ y₀ c colour).char y x = if y = y₀ ∧ x = x₀ then c else t.char y x := by
  have hindex : y * VGA_WIDTH + x = y₀ * VGA_WIDTH + x₀ ↔ y = y₀ ∧ x = x₀ := by
    unfold VGA_WIDTH
    omega
  unfold Terminal.char terminal_putchar Terminal.set
  dsimp only
  by_cases h : y = y₀ ∧ x = x₀
  · rw [if_pos (hindex.mpr h), if_pos h, make_char_byte]
  · rw [if_neg (fun he => h (hindex.mp he)), if_neg h]

theorem shown_putchar (h : Shown t s) (l : List UInt8) (x₀ : Nat) (hx₀ : x₀ < 80) (c colour : UInt8)
    (hcell : ∀ x < 80, l.getD x 32 = if x = x₀ then c else s.current.getD x 32) :
    Shown (t.terminal_putchar x₀ t.terminal_row c colour) { s with current := l } := by
  obtain ⟨hrow, hcur⟩ := row_le h
  refine ⟨?_, h.row, ?_⟩
  · intro i hi
    rcases List.mem_cons.mp hi with rfl | hi
    · unfold VGA_WIDTH
      omega
    · exact h.written i hi
  · intro y hy x hx
    have hshows := h.shows y hy x hx
    have htop : top { s with current := l } = top s := rfl
    rw [htop, rows_getD]
    rw [putchar_char t x₀ _ y x c colour hx₀ hx]
    by_cases hyr : y = t.terminal_row
    · subst hyr
      have hold : s.rows.getD s.closed.length [] = s.current := by
        simp [Transcript.rows, List.getD_eq_getElem?_getD]
      rw [hcur, hold] at hshows
      rw [hcur, if_pos rfl, hcell x hx, hshows]
      simp
    · rw [if_neg (by omega), if_neg (by omega), hshows]

theorem shown_append (h : Shown t s) (hshort : s.current.length < 80) (c colour : UInt8) :
    Shown (t.terminal_putchar s.current.length t.terminal_row c colour) (s.append c) := by
  apply shown_putchar h (s.current ++ [c]) _ hshort
  intro x hx
  rcases Nat.lt_trichotomy x s.current.length with hlt | heq | hgt
  · rw [if_neg (by omega), List.getD_append _ _ _ _ hlt]
  · subst heq
    simp [List.getD_eq_getElem?_getD]
  · rw [if_neg (by omega), List.getD_eq_default _ _ (by simp; omega), List.getD_eq_default _ _ (by omega)]

/-- On an empty row a backspace writes a blank over a blank. -/
theorem shown_backspace (h : Shown t s) (hshort : s.current.length < 80) (colour : UInt8) :
    Shown (t.terminal_putchar (s.current.length - 1) t.terminal_row 32 colour)
      { s with current := s.current.dropLast } := by
  apply shown_putchar h _ _ (by omega)
  intro x hx
  rcases Nat.lt_or_ge x (s.current.length - 1) with hlt | hge
  · rw [if_neg (by omega), List.getD_eq_getElem _ _ (by simp; omega), List.getD_eq_getElem _ _ (by omega)]
    simp
  · rw [List.getD_eq_default _ _ (by simp; omega)]
    split
    · rfl
    · rw [List.getD_eq_default _ _ (by omega)]

theorem shown_next_row (h : Shown t s) :
    Shown t.terminal_next_row s.close ∧ t.terminal_next_row.terminal_col = 0 := by
  obtain ⟨hrow, hcur⟩ := row_le h
  have hlen : s.close.closed.length = s.closed.length + 1 := by simp [Transcript.close]
  have hu : u16 ((t.terminal_row : Int) + 1) = t.terminal_row + 1 := u16_of_lt (t.terminal_row + 1) (by omega)
  unfold terminal_next_row
  simp only [hu]
  by_cases hlast : t.terminal_row + 1 ≥ VGA_HEIGHT
  · -- The last row: everything goes up by one, and the first row on the screen is the next one.
    rw [if_pos hlast]
    have htop : top s.close = top s + 1 := by
      unfold top VGA_HEIGHT at *
      omega
    have hd := scroll_draws { t with terminal_row := t.terminal_row + 1, terminal_col := 0 }
    generalize terminal_scroll _ = t' at hd ⊢
    refine ⟨⟨?_, ?_, ?_⟩, hd.col⟩
    · intro i hi
      rcases hd.written i hi with hw | hw
      · exact h.written i hw
      · exact hw
    · show VGA_HEIGHT - 1 = _
      unfold VGA_HEIGHT at *
      omega
    · intro y hy x hx
      rw [close_rows, htop, char_eq, hd.inside _ (show y * 80 + x < 1600 by omega)]
      by_cases hy19 : y < 19
      · rw [if_pos (by omega), show top s + 1 + y = top s + (y + 1) by omega, ← h.shows (y + 1) (by omega) x hx,
          char_eq, show (y + 1) * 80 + x = y * 80 + x + 80 by omega]
      · have hbelow : s.rows.getD (top s + 1 + y) [] = [] := by
          unfold VGA_HEIGHT at hlast
          apply List.getD_eq_default
          simp [Transcript.rows]
          omega
        rw [if_neg (by omega), make_char_byte, hbelow]
        rfl
  · rw [if_neg hlast]
    have htop : top s.close = top s := by
      unfold top VGA_HEIGHT at *
      omega
    refine ⟨⟨h.written, ?_, ?_⟩, rfl⟩
    · show t.terminal_row + 1 = _
      rw [htop]
      omega
    · intro y hy x hx
      rw [close_rows, htop, ← h.shows y hy x hx]
      rfl

theorem shown_cursor (h : Shown t s) (row col : Nat) : Shown (t.terminal_update_cursor row col) s :=
  ⟨h.written, h.row, h.shows⟩

theorem inv_writechar (h : ScreenInv t s) (c colour : UInt8) : ScreenInv (t.terminal_writechar c colour) (s.put c) := by
  have hshort := h.short
  have hcol := h.col
  unfold terminal_writechar Transcript.put
  by_cases h8 : c = 0x08
  · rw [if_pos h8, if_pos h8]
    have hback : (if t.terminal_col > 0 then { t with terminal_col := t.terminal_col - 1 } else t) =
        { t with terminal_col := s.current.length - 1 } := by
      split
      · rw [hcol]
      · rw [show s.current.length - 1 = t.terminal_col by omega]
    simp only [hback]
    have hshown : Shown { t with terminal_col := s.current.length - 1 } s := ⟨h.written, h.row, h.shows⟩
    refine ⟨shown_cursor (shown_backspace hshown hshort colour) _ _, ?_, ?_⟩
    · simp
      omega
    · simp [terminal_update_cursor, terminal_putchar, Terminal.set]
  rw [if_neg h8, if_neg h8]
  by_cases h10 : c = 10
  · rw [if_pos h10, if_pos h10]
    obtain ⟨hnext, hzero⟩ := shown_next_row h.toShown
    exact ⟨shown_cursor hnext _ _, by simp [Transcript.close], hzero⟩
  · rw [if_neg h10, if_neg h10]
    have hshown := shown_append h.toShown hshort c colour
    have hu : u16 ((t.terminal_col : Int) + 1) = t.terminal_col + 1 := u16_of_lt (t.terminal_col + 1) (by omega)
    have hlen : (s.append c).current.length = s.current.length + 1 := by simp [Transcript.append]
    rw [← hcol] at hshown
    generalize hput : t.terminal_putchar t.terminal_col t.terminal_row c colour = t₁ at *
    have hcol₁ : t₁.terminal_col = t.terminal_col := by
      rw [← hput]
      rfl
    simp only [hcol₁, hu]
    have hmoved : Shown { t₁ with terminal_col := t.terminal_col + 1 } (s.append c) :=
      ⟨hshown.written, hshown.row, hshown.shows⟩
    by_cases hwrap : t.terminal_col + 1 ≥ VGA_WIDTH
    · rw [if_pos hwrap, if_pos (by unfold VGA_WIDTH at *; omega)]
      obtain ⟨hnext, hzero⟩ := shown_next_row hmoved
      exact ⟨shown_cursor hnext _ _, by simp [Transcript.close], hzero⟩
    · rw [if_neg hwrap, if_neg (by omega)]
      refine ⟨shown_cursor hmoved _ _, ?_, ?_⟩
      · unfold VGA_WIDTH at hwrap
        omega
      · show t.terminal_col + 1 = _
        omega

theorem inv_start (t : Terminal) (video_mem : Nat → UInt16) (ht : t = terminal_initialize video_mem) :
    ScreenInv t .empty := by
  -- The state after the loops is a variable from here on, so that nothing runs them.
  obtain ⟨t', ht'⟩ : ∃ t', terminal_initialize_rows VGA_HEIGHT 0 ⟨video_mem, 0, 0, 0, []⟩ = t' := ⟨_, rfl⟩
  have hd := initialize_rows_draws 0 VGA_HEIGHT ⟨video_mem, 0, 0, 0, []⟩
  rw [ht]
  unfold terminal_initialize
  rw [ht'] at hd ⊢
  refine ⟨⟨?_, ?_, ?_⟩, by decide, ?_⟩
  · intro i hi
    rcases hd.written i hi with hw | hw
    · cases hw
    · unfold VGA_HEIGHT at hw
      omega
  · exact hd.row
  · intro y hy x hx
    rw [char_eq, show (t'.terminal_update_cursor 0 0).video_mem = t'.video_mem from rfl,
      hd.inside _ (by unfold VGA_HEIGHT; omega), make_char_byte]
    cases y <;> rfl
  · exact hd.col

/-- Whatever is written, with any colours: after every character the terminal shows the transcript of the characters
so far. -/
theorem terminal_refines (video_mem : Nat → UInt16) (text : List (UInt8 × UInt8)) (n : Nat) :
    ((text.take n).foldl (fun t p => t.terminal_writechar p.1 p.2) <| terminal_initialize video_mem).Refines
      ((text.take n).foldl (fun s p => s.put p.1) .empty) := by
  apply refines_of_inv
  generalize text.take n = l
  suffices h : ∀ t s, ScreenInv t s →
      ScreenInv (l.foldl (fun t p => t.terminal_writechar p.1 p.2) t) (l.foldl (fun s p => s.put p.1) s) from
    h _ _ (inv_start _ video_mem rfl)
  induction l with
  | nil => exact fun t s h => h
  | cons p l ih => exact fun t s h => ih _ _ (inv_writechar h p.1 p.2)

end PeachOS.Screen
