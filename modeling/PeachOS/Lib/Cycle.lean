import PeachOS.Lib.Linked
import Mathlib.Data.List.Rotate

/-!
# Going around a linked list

`around` takes the next node, and the first one after the last. From any node of a list of `n` nodes it comes back
after `n` steps, and has then been at every node once.
-/

namespace PeachOS.Lib

variable {α : Type} [DecidableEq α] {next : α → α} {nil : α}

def around (next : α → α) (nil first x : α) : α := if next x = nil then first else next x

theorem around_eq (a : α) (l : List α) (h : Follows next nil a l) (i : Nat) (x : α) (hi : l[i]? = some x)
    (first : α) : around next nil first x = (l[i + 1]?).getD first := by
  induction l generalizing a i with
  | nil => cases hi
  | cons y l ih =>
    obtain ⟨-, -, h⟩ := h
    cases i with
    | zero =>
      obtain rfl : y = x := by simpa using hi
      cases l with
      | nil => exact if_pos h
      | cons z l =>
        obtain ⟨hz, hne, -⟩ := h
        simp [around, hz, hne]
    | succ i => simpa using ih (next y) h i (by simpa using hi)

theorem around_getElem? (a : α) (l : List α) (h : Follows next nil a l) (i : Nat) (x : α) (hi : l[i]? = some x) :
    l[(i + 1) % l.length]? = some (around next nil a x) := by
  obtain ⟨hlt, -⟩ := List.getElem?_eq_some_iff.mp hi
  rw [around_eq a l h i x hi]
  rcases Nat.lt_or_eq_of_le (Nat.succ_le_of_lt hlt) with hnext | hlast
  · simp [Nat.mod_eq_of_lt hnext, List.getElem?_eq_getElem hnext]
  · cases l with
    | nil => cases hi
    | cons y l =>
      obtain ⟨rfl, -, -⟩ := h
      have hnone : (a :: l)[i + 1]? = none := List.getElem?_eq_none (Nat.le_of_eq hlast.symm)
      rw [hnone, ← hlast, Nat.mod_self]
      rfl

theorem walk_getElem? (a : α) (l : List α) (h : Follows next nil a l) (pos : Nat → α) (j : Nat)
    (hzero : l[j]? = some (pos 0)) (n : Nat)
    (hstep : ∀ i < n, pos i ∈ l → pos (i + 1) = around next nil a (pos i)) (i : Nat) (hi : i ≤ n) :
    l[(j + i) % l.length]? = some (pos i) := by
  induction i with
  | zero =>
    obtain ⟨hlt, -⟩ := List.getElem?_eq_some_iff.mp hzero
    rw [Nat.add_zero, Nat.mod_eq_of_lt hlt, hzero]
  | succ i ih =>
    have hpos := ih (by omega)
    have hnext := around_getElem? a l h _ _ hpos
    rw [Nat.mod_add_mod, Nat.add_assoc] at hnext
    rw [hnext, hstep i (by omega) (List.mem_of_getElem? hpos)]

theorem walk_perm (a : α) (l : List α) (h : Follows next nil a l) (pos : Nat → α) (hmem : pos 0 ∈ l)
    (hstep : ∀ i < l.length, pos i ∈ l → pos (i + 1) = around next nil a (pos i)) :
    ((List.range l.length).map fun i => pos (i + 1)).Perm l ∧ pos l.length = pos 0 ∧ ∀ i ≤ l.length, pos i ∈ l := by
  obtain ⟨j, hj⟩ := List.getElem?_of_mem hmem
  have hpos := walk_getElem? a l h pos j hj l.length hstep
  refine ⟨?_, ?_, ?_⟩
  · have hrot : ((List.range l.length).map fun i => pos (i + 1)) = l.rotate (j + 1) := by
      apply List.ext_getElem?
      intro i
      by_cases hi : i < l.length
      · have hi' := hpos (i + 1) (by omega)
        rw [List.getElem?_rotate hi, show i + (j + 1) = j + (i + 1) by omega, hi']
        simp [hi]
      · simp [hi]
    rw [hrot]
    exact List.rotate_perm l (j + 1)
  · have hend := hpos l.length (Nat.le_refl _)
    obtain ⟨hlt, -⟩ := List.getElem?_eq_some_iff.mp hj
    rw [Nat.add_mod_right, Nat.mod_eq_of_lt hlt, hj] at hend
    exact (Option.some.inj hend).symm
  · intro i hi
    exact List.mem_of_getElem? (hpos i hi)

end PeachOS.Lib
