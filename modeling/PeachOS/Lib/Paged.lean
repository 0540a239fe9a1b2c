import Mathlib.Algebra.GroupWithZero.Nat
import Mathlib.Data.Fin.Basic
import Mathlib.Tactic.Common

/-!
# Paged memory and its write log

A memory is an array of pages of `k` cells. Cells have one address across all pages, and a splice
overwrites a range of addresses. The second half is about writing whole pages one at a time, and
about the memory after any prefix of such writes.
-/

namespace PeachOS.Lib

theorem div_mul_add_mod (a k : Nat) : a / k * k + a % k = a := by
  rw [Nat.mul_comm]
  exact Nat.div_add_mod a k

variable {k : Nat} {β : Type}

/-- `n` cells of `inp` written from address `pos` on. -/
def spliced (s : Nat → Fin k → β) (pos n : Nat) (inp : Nat → β) : Nat → Fin k → β :=
  fun q j => if pos ≤ q * k + j ∧ q * k + j < pos + n then inp (q * k + j - pos) else s q j

@[simp]
theorem spliced_zero (s : Nat → Fin k → β) (pos : Nat) (inp : Nat → β) : spliced s pos 0 inp = s := by
  funext q j
  rw [spliced, if_neg (by omega)]

theorem spliced_in_page (s : Nat → Fin k → β) (pos n : Nat) (inp : Nat → β) (h : pos % k + n ≤ k) :
    spliced s pos n inp = fun q => if q = pos / k then
      fun (j : Fin k) => if pos % k ≤ (j : Nat) ∧ (j : Nat) < pos % k + n then inp (j - pos % k) else s (pos / k) j
      else s q := by
  funext q j
  have hpos := div_mul_add_mod pos k
  have hj := j.isLt
  by_cases hq : q = pos / k
  · subst hq
    simp only [spliced, if_true]
    by_cases hin : pos % k ≤ (j : Nat) ∧ (j : Nat) < pos % k + n
    · rw [if_pos hin, if_pos (by omega)]
      congr 1
      omega
    · rw [if_neg hin, if_neg (by omega)]
  · simp only [spliced, if_neg hq]
    rw [if_neg]
    rintro ⟨h1, h2⟩
    apply hq
    rcases Nat.lt_or_gt_of_ne hq with hlt | hgt
    · -- A page below: its last address is below `pos`.
      have := Nat.mul_le_mul_right k (Nat.succ_le_of_lt hlt)
      rw [Nat.succ_mul] at this
      omega
    · -- A page above: its first address is past the splice.
      have := Nat.mul_le_mul_right k (Nat.succ_le_of_lt hgt)
      rw [Nat.succ_mul] at this
      omega

variable [NeZero k]

/-- The cell at an address. -/
def cellAt (s : Nat → Fin k → β) (a : Nat) : β := s (a / k) ⟨a % k, Nat.mod_lt _ (Nat.pos_of_neZero k)⟩

@[simp]
theorem cellAt_mul_add (s : Nat → Fin k → β) (q : Nat) (j : Fin k) : cellAt s (q * k + j) = s q j := by
  have hq : (q * k + j) / k = q := by
    rw [Nat.mul_comm, Nat.mul_add_div (Nat.pos_of_neZero k), Nat.div_eq_of_lt j.isLt, Nat.add_zero]
  have hj : (q * k + j) % k = j := by
    rw [Nat.mul_comm, Nat.mul_add_mod, Nat.mod_eq_of_lt j.isLt]
  unfold cellAt
  simp only [hq, hj]

theorem ext_cellAt (s t : Nat → Fin k → β) (h : ∀ a, cellAt s a = cellAt t a) : s = t := by
  funext q j
  rw [← cellAt_mul_add s, ← cellAt_mul_add t]
  exact h _

theorem cellAt_spliced (s : Nat → Fin k → β) (pos n : Nat) (inp : Nat → β) (a : Nat) :
    cellAt (spliced s pos n inp) a =
      if pos ≤ a ∧ a < pos + n then inp (a - pos) else cellAt s a := by
  simp only [cellAt, spliced, div_mul_add_mod]

theorem spliced_spliced (s : Nat → Fin k → β) (pos m n : Nat) (inp : Nat → β) :
    spliced (spliced s pos m inp) (pos + m) n (fun i => inp (i + m)) = spliced s pos (m + n) inp := by
  apply ext_cellAt
  intro a
  rw [cellAt_spliced, cellAt_spliced, cellAt_spliced]
  by_cases h1 : pos + m ≤ a ∧ a < pos + m + n
  · rw [if_pos h1, if_pos (by omega)]
    congr 1
    omega
  · rw [if_neg h1]
    by_cases h2 : pos ≤ a ∧ a < pos + m
    · rw [if_pos h2, if_pos (by omega)]
    · rw [if_neg h2, if_neg (by omega)]

/-! ## Page writes -/

section Writes

variable {κ γ : Type} [DecidableEq κ]

/-- The memory after a list of page writes, the first one first. -/
def applyWrites : List (κ × γ) → (κ → γ) → κ → γ
  | [], s => s
  | (i, b) :: ws, s => applyWrites ws fun j => if j = i then b else s j

theorem applyWrites_append (ws vs : List (κ × γ)) (s : κ → γ) :
    applyWrites (ws ++ vs) s = applyWrites vs (applyWrites ws s) := by
  induction ws generalizing s with
  | nil => rfl
  | cons w ws ih => exact ih _

/-- Every memory on the way, from before the first write to after the last, satisfies `P`. -/
def Through (P : (κ → γ) → Prop) (s : κ → γ) (ws : List (κ × γ)) : Prop :=
  ∀ n, P (applyWrites (ws.take n) s)

theorem through_nil (P : (κ → γ) → Prop) (s : κ → γ) (h : P s) : Through P s [] := by
  intro n
  simpa [applyWrites] using h

theorem through_append (P : (κ → γ) → Prop) (s : κ → γ) (ws vs : List (κ × γ))
    (h1 : Through P s ws) (h2 : Through P (applyWrites ws s) vs) : Through P s (ws ++ vs) := by
  intro n
  rw [List.take_append]
  by_cases h : n ≤ ws.length
  · rw [Nat.sub_eq_zero_of_le h, List.take_zero, List.append_nil]
    exact h1 n
  · rw [List.take_of_length_le (by omega), applyWrites_append]
    exact h2 _

theorem through_single (P : (κ → γ) → Prop) (s : κ → γ) (i : κ) (b : γ) (h1 : P s)
    (h2 : P fun j => if j = i then b else s j) : Through P s [(i, b)] := by
  intro n
  cases n with
  | zero => exact h1
  | succ n => simpa [applyWrites] using h2

theorem through_mono (P Q : (κ → γ) → Prop) (s : κ → γ) (ws : List (κ × γ)) (h : Through P s ws)
    (hpq : ∀ t, P t → Q t) : Through Q s ws := fun n => hpq _ (h n)

theorem through_last (P : (κ → γ) → Prop) (s : κ → γ) (ws : List (κ × γ)) (h : Through P s ws) :
    P (applyWrites ws s) := by
  have := h ws.length
  rwa [List.take_length] at this

end Writes

end PeachOS.Lib
