import Mathlib.Tactic.Common

/-!
# Linear search

A loop that looks at the indexes from `i` on, at most `n` of them, and returns the first one with a property
or a fixed value if there is none.
-/

namespace PeachOS.Lib

/-- `j` is the first of the `n` indexes from `i` on that has the property. -/
structure First (P : Nat → Prop) (i n j : Nat) : Prop where
  ge : i ≤ j
  lt : j < i + n
  holds : P j
  before : ∀ m, i ≤ m → m < j → ¬ P m

variable {P : Nat → Prop}

/-- `search` is the loop, given by its two equations. -/
theorem search_spec [DecidablePred P] (search : Nat → Nat → Int) (none : Int)
    (hzero : ∀ i, search 0 i = none)
    (hsucc : ∀ n i, search (n + 1) i = if P i then (i : Int) else search n (i + 1)) (n i : Nat) :
    (∃ j : Nat, search n i = j ∧ First P i n j) ∨
      (search n i = none ∧ ∀ m, i ≤ m → m < i + n → ¬ P m) := by
  induction n generalizing i with
  | zero =>
    refine Or.inr ⟨hzero i, ?_⟩
    intro m h1 h2
    omega
  | succ n ih =>
    rw [hsucc]
    by_cases hi : P i
    · rw [if_pos hi]
      refine Or.inl ⟨i, rfl, Nat.le_refl i, by omega, hi, ?_⟩
      intro m h1 h2
      omega
    · rw [if_neg hi]
      have hskip : ∀ m, i ≤ m → (i + 1 ≤ m → ¬ P m) → ¬ P m := by
        intro m hm hrest
        rcases Nat.eq_or_lt_of_le hm with rfl | hlt
        · exact hi
        · exact hrest hlt
      rcases ih (i + 1) with ⟨j, heq, hj⟩ | ⟨heq, hall⟩
      · refine Or.inl ⟨j, heq, by have := hj.ge; omega, by have := hj.lt; omega, hj.holds, ?_⟩
        intro m h1 h2
        exact hskip m h1 fun h => hj.before m h h2
      · refine Or.inr ⟨heq, ?_⟩
        intro m h1 h2
        exact hskip m h1 fun h => hall m h (by omega)

theorem first_unique {i n j j' : Nat} (h : First P i n j) (h' : First P i n j') : j = j' := by
  rcases Nat.lt_trichotomy j j' with hlt | heq | hlt
  · exact absurd h.holds (h'.before j h.ge hlt)
  · exact heq
  · exact absurd h'.holds (h.before j' h'.ge hlt)

end PeachOS.Lib
