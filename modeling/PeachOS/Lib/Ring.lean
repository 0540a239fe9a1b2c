import Mathlib.Data.Nat.ModEq
import Mathlib.Data.List.GetD
import Mathlib.Tactic.Common

/-!
# Ring buffers without a count

`n` cells in a circle hold a queue from position `h` on, and the cells that are not in use are empty. So the
queue is empty exactly if the cell at `h` is.
-/

namespace PeachOS.Lib

variable {α : Type} {empty : α} {n : Nat} {cells : Nat → α}

/-- From `h` on the cells hold the queue `l`, and the rest of them is empty. -/
def RingHolds (empty : α) (n : Nat) (cells : Nat → α) (h : Nat) (l : List α) : Prop :=
  l.length ≤ n ∧ ∀ j < n, cells ((h + j) % n) = l.getD j empty

theorem offset_inj (h i j : Nat) (hi : i < n) (hj : j < n) (heq : (h + i) % n = (h + j) % n) : i = j := by
  have hmod : Nat.ModEq n i j := Nat.ModEq.add_left_cancel' h heq
  rwa [Nat.ModEq, Nat.mod_eq_of_lt hi, Nat.mod_eq_of_lt hj] at hmod

theorem ring_nil (h : Nat) (hcells : ∀ i, cells i = empty) : RingHolds empty n cells h [] := by
  constructor
  · exact Nat.zero_le n
  · intro j _
    rw [hcells]
    simp

theorem ring_head (h : Nat) (l : List α) (hn : 0 < n) (hring : RingHolds empty n cells h l) :
    cells (h % n) = l.headD empty := by
  have hcell := hring.2 0 hn
  rw [Nat.add_zero] at hcell
  rw [hcell]
  cases l <;> simp

theorem ring_push (h : Nat) (l : List α) (c : α) (hlt : l.length < n) (hring : RingHolds empty n cells h l) :
    RingHolds empty n (fun i => if i = (h + l.length) % n then c else cells i) h (l ++ [c]) := by
  constructor
  · simp
    omega
  · intro j hj
    by_cases hend : j = l.length
    · simp [hend]
    · have hne : (h + j) % n ≠ (h + l.length) % n := fun heq => hend (offset_inj h j l.length hj hlt heq)
      simp only [if_neg hne, hring.2 j hj]
      by_cases hin : j < l.length
      · simp [hin, List.getElem?_append_left hin]
      · have hlong : (l ++ [c]).length ≤ j := by
          rw [List.length_append, List.length_singleton]
          omega
        rw [List.getD_eq_default _ _ (by omega), List.getD_eq_default _ _ hlong]

theorem ring_pop (h : Nat) (l : List α) (c : α) (hring : RingHolds empty n cells h (c :: l)) :
    RingHolds empty n (fun i => if i = h % n then empty else cells i) (h + 1) l := by
  have hle : l.length + 1 ≤ n := hring.1
  constructor
  · omega
  · intro j hj
    rw [show h + 1 + j = h + (j + 1) by omega]
    by_cases hend : j + 1 = n
    · -- One round further is the emptied cell.
      have hlast : (h + (j + 1)) % n = h % n := by simp [hend]
      simp only [hlast, if_true]
      simp [show l.length ≤ j by omega]
    · have hne : (h + (j + 1)) % n ≠ h % n := fun heq =>
        absurd (offset_inj h (j + 1) 0 (by omega) (by omega) heq) (by omega)
      simp only [if_neg hne, hring.2 (j + 1) (by omega)]
      simp

end PeachOS.Lib
