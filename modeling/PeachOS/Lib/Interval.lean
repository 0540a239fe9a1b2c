import Mathlib.Tactic.Common

/-!
# Runs of numbers

A run is `n` numbers from `s` on. A scan goes up from 0 and looks for the first run of `k` numbers that
all satisfy `P`.
-/

namespace PeachOS.Lib

def AllIn (P : Nat → Prop) (s n : Nat) : Prop := ∀ i, s ≤ i → i < s + n → P i

/-- The two runs have no number in common. -/
def RunsApart (s n s' n' : Nat) : Prop := ∀ i, s ≤ i → i < s + n → ¬ (s' ≤ i ∧ i < s' + n')

variable {P : Nat → Prop} {k i s : Nat}

theorem runsApart_symm (s n s' n' : Nat) (h : RunsApart s n s' n') : RunsApart s' n' s n :=
  fun i h1 h2 h3 => h i h3.1 h3.2 ⟨h1, h2⟩

theorem runsApart_of_not (s n s' n' : Nat) (h : AllIn P s n) (h' : AllIn (fun i => ¬ P i) s' n') :
    RunsApart s n s' n' := fun i h1 h2 h3 => h' i h3.1 h3.2 (h i h1 h2)

theorem pairwise_erased {α : Type} {R : α → α → Prop} (l : List α) (hsymm : ∀ a b, R a b → R b a) (h : l.Pairwise R)
    (k : Nat) (a b : α) (ha : l[k]? = some a) (hb : b ∈ l.eraseIdx k) : R b a := by
  obtain ⟨j, hjk, hj⟩ := List.mem_eraseIdx_iff_getElem?.mp hb
  obtain ⟨hk', rfl⟩ := List.getElem?_eq_some_iff.mp ha
  obtain ⟨hj', rfl⟩ := List.getElem?_eq_some_iff.mp hj
  have hpair := List.pairwise_iff_getElem.mp h
  rcases Nat.lt_or_gt_of_ne hjk with hlt | hgt
  · exact hpair j k hj' hk' hlt
  · exact hsymm _ _ (hpair k j hk' hj' hgt)

/-- The scan has passed the numbers below `i`. The longest run of `P` that ends there starts at `s`, and
no run of `k` was found. -/
structure Scan (P : Nat → Prop) (k i s : Nat) : Prop where
  le : s ≤ i
  run : ∀ j, s ≤ j → j < i → P j
  longest : ∀ s', s' ≤ i → (∀ j, s' ≤ j → j < i → P j) → s ≤ s'
  none : 1 ≤ k → ∀ s', s' + k ≤ i → ¬ AllIn P s' k

theorem scan_zero (P : Nat → Prop) (k : Nat) : Scan P k 0 0 :=
  ⟨Nat.le_refl 0, fun _ _ h => by omega, fun _ _ _ => Nat.zero_le _, fun _ _ _ => by omega⟩

theorem scan_stop (h : Scan P k i s) (hi : ¬ P i) : Scan P k (i + 1) (i + 1) := by
  refine ⟨Nat.le_refl _, fun j h1 h2 => by omega, fun s' h1 h2 => ?_, fun hk s' h1 h2 => ?_⟩
  · by_contra hlt
    exact hi (h2 i (by omega) (by omega))
  · rcases Nat.eq_or_lt_of_le h1 with heq | hlt
    · exact hi (h2 i (by omega) (by omega))
    · exact h.none hk s' (by omega) h2

theorem scan_next (h : Scan P k i s) (hi : P i) (hk : i + 1 - s ≠ k) : Scan P k (i + 1) s := by
  have hle := h.le
  refine ⟨by omega, fun j h1 h2 => ?_, fun s' h1 h2 => ?_, fun hk1 s' h1 h2 => ?_⟩
  · rcases Nat.eq_or_lt_of_le (Nat.le_of_lt_succ h2) with rfl | hlt
    · exact hi
    · exact h.run j h1 hlt
  · rcases Nat.eq_or_lt_of_le h1 with rfl | hlt
    · omega
    · exact h.longest s' (by omega) (fun j h3 h4 => h2 j h3 (by omega))
  · rcases Nat.eq_or_lt_of_le h1 with heq | hlt
    · -- A run that ends here starts at `s` or after it, and a shorter one would have been found before.
      have hs := h.longest s' (by omega) (fun j h3 h4 => h2 j h3 (by omega))
      exact h.none hk1 (i - k) (by omega) (fun j h3 h4 => h.run j (by omega) (by omega))
    · exact h.none hk1 s' (by omega) h2

theorem scan_last (h : Scan P k (i + 1) (i + 1)) : ¬ P i := by
  intro hi
  have := h.longest i (by omega) (fun j h1 h2 => by rwa [show j = i by omega])
  omega

end PeachOS.Lib
