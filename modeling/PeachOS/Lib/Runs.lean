import PeachOS.Lib.Interval
import Mathlib.Data.List.Perm.Basic

/-!
# Lists of runs

A run is its first number and its length. The order of a list of runs that have nothing in common does not matter.
-/

namespace PeachOS.Lib

variable {runs runs' : List (Nat × Nat)}

def Covers (r : Nat × Nat) (i : Nat) : Prop := r.1 ≤ i ∧ i < r.1 + r.2

instance (r : Nat × Nat) (i : Nat) : Decidable (Covers r i) := inferInstanceAs (Decidable (_ ∧ _))

theorem covers_one (i j : Nat) : Covers (i, 1) j ↔ j = i := by
  unfold Covers
  dsimp only
  omega

def AllApart (runs : List (Nat × Nat)) : Prop := runs.Pairwise fun r s => RunsApart r.1 r.2 s.1 s.2

theorem allApart_perm (h : AllApart runs) (hperm : runs.Perm runs') : AllApart runs' :=
  hperm.pairwise h fun hab => runsApart_symm _ _ _ _ hab

theorem allApart_nodup (h : AllApart runs) (hpos : ∀ r ∈ runs, 1 ≤ r.2) : runs.Nodup := by
  refine List.Pairwise.imp_of_mem ?_ h
  rintro r s hr - hapart rfl
  have := hpos r hr
  exact hapart r.1 (Nat.le_refl _) (by omega) ⟨Nat.le_refl _, by omega⟩

end PeachOS.Lib
