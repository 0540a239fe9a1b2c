import Mathlib.Data.Nat.ModEq
import Mathlib.Tactic.Common

/-!
# Ring buffers whose writer overtakes the reader

The items are numbered in the order in which they are written, and item `p` goes to cell `p % n`, whatever is there. The
reader goes from cell to cell, takes what it finds and leaves an empty cell behind. So it jumps over items that have
been overwritten, and the cells before the item to which it jumped still hold items that are older.
-/

namespace PeachOS.Lib

/-- `pushed` items have been written, and the last one that was read is the one before `next`. The items from `first`
on were read without a jump. -/
structure Lap where
  pushed : Nat
  next : Nat
  first : Nat

namespace Lap

def start : Lap := ⟨0, 0, 0⟩

def push (r : Lap) : Lap := { r with pushed := r.pushed + 1 }

/-- The last item that was written to the cell of item `next`. -/
def latest (r : Lap) (n : Nat) : Nat := r.next + (r.pushed - 1 - r.next) / n * n

def pop (r : Lap) (n : Nat) : Lap :=
  if r.next < r.pushed then
    ⟨r.pushed, r.latest n + 1, if r.latest n = r.next then r.first else r.latest n⟩
  else r

/-- A reader that has read the newest item finds an empty cell: it has not jumped, or it has read a whole round of
items since. -/
def Settled (r : Lap) (n : Nat) : Prop := r.next = r.pushed → r.first = 0 ∨ r.first + n ≤ r.pushed

instance (r : Lap) (n : Nat) : Decidable (r.Settled n) := inferInstanceAs (Decidable (_ → _))

end Lap

variable {α : Type} {empty : α} {n : Nat} {cells items : Nat → α} {r : Lap}

/-- The cells hold the last `n` items but for those that were read. -/
structure LapHolds (empty : α) (n : Nat) (cells items : Nat → α) (r : Lap) : Prop where
  next_le : r.next ≤ r.pushed
  first_le : r.first ≤ r.next
  jumped : r.first = 0 ∨ n ≤ r.first
  cell : ∀ p < r.pushed, r.pushed ≤ p + n → cells (p % n) = if r.first ≤ p ∧ p < r.next then empty else items p
  unused : ∀ c < n, r.pushed ≤ c → cells c = empty

theorem lapHolds_start (hcells : ∀ c, cells c = empty) : LapHolds empty n cells items .start :=
  ⟨Nat.le_refl 0, Nat.le_refl 0, Or.inl rfl, fun p hp => absurd hp (Nat.not_lt_zero p), fun c _ _ => hcells c⟩

theorem lap_inj (t p q : Nat) (hp : p < t) (hp' : t ≤ p + n) (hq : q < t) (hq' : t ≤ q + n)
    (h : p % n = q % n) : p = q := by
  rcases Nat.le_total p q with hle | hle
  · have hdvd := (Nat.modEq_iff_dvd' hle).mp h
    have := Nat.eq_zero_of_dvd_of_lt hdvd (by omega)
    omega
  · have hdvd := (Nat.modEq_iff_dvd' hle).mp h.symm
    have := Nat.eq_zero_of_dvd_of_lt hdvd (by omega)
    omega

theorem lap_push (h : LapHolds empty n cells items r) :
    LapHolds empty n (fun c => if c = r.pushed % n then items r.pushed else cells c) items r.push := by
  have hnext := h.next_le
  refine ⟨by simp only [Lap.push]; omega, h.first_le, h.jumped, ?_, ?_⟩
  · intro p hp hp'
    change p < r.pushed + 1 at hp
    change r.pushed + 1 ≤ p + n at hp'
    change _ = if r.first ≤ p ∧ p < r.next then empty else items p
    rcases Nat.eq_or_lt_of_le (Nat.le_of_lt_succ hp) with rfl | hlt
    · rw [if_pos rfl, if_neg (by omega)]
    · have hcell : p % n ≠ r.pushed % n := by
        intro heq
        have := lap_inj (r.pushed + 1) p r.pushed hp hp' (by omega) (by omega) heq
        omega
      rw [if_neg hcell]
      exact h.cell p hlt (by omega)
  · intro c hc hunused
    simp only [Lap.push] at hunused
    rw [if_neg (by rw [Nat.mod_eq_of_lt (by omega)]; omega)]
    exact h.unused c hc (by omega)

section Latest

variable (hlt : r.next < r.pushed) (hn : 0 < n)

include hlt hn

theorem latest_spec : r.latest n < r.pushed ∧ r.pushed ≤ r.latest n + n ∧ r.latest n % n = r.next % n ∧
    (r.latest n = r.next ∨ r.next + n ≤ r.latest n) := by
  have hle := Nat.div_mul_le_self (r.pushed - 1 - r.next) n
  have hge := Nat.lt_div_mul_add (a := r.pushed - 1 - r.next) hn
  refine ⟨by unfold Lap.latest; omega, by unfold Lap.latest; omega, Nat.add_mul_mod_self_right _ _ _, ?_⟩
  rcases Nat.eq_zero_or_pos ((r.pushed - 1 - r.next) / n) with hzero | hpos
  · left
    simp [Lap.latest, hzero]
  · right
    have := Nat.le_mul_of_pos_left n hpos
    unfold Lap.latest
    omega

theorem lap_latest (h : LapHolds empty n cells items r) : cells (r.next % n) = items (r.latest n) := by
  obtain ⟨hpushed, hwindow, hmod, hor⟩ := latest_spec hlt hn
  rw [← hmod, h.cell _ hpushed hwindow, if_neg (by omega)]

theorem lap_pop (h : LapHolds empty n cells items r) :
    LapHolds empty n (fun c => if c = r.next % n then empty else cells c) items (r.pop n) := by
  obtain ⟨hpushed, hwindow, hmod, hor⟩ := latest_spec hlt hn
  have hfirst := h.first_le
  have hjumped := h.jumped
  unfold Lap.pop
  rw [if_pos hlt]
  refine ⟨by dsimp only; omega, ?_, ?_, ?_, ?_⟩
  · dsimp only
    split <;> omega
  · dsimp only
    split <;> omega
  · intro p hp hp'
    dsimp only at hp hp' ⊢
    by_cases hcell : p % n = r.next % n
    · -- The cell that was read.
      have heq := lap_inj r.pushed p (r.latest n) hp hp' hpushed hwindow (by omega)
      subst heq
      rw [if_pos hcell, if_pos]
      split <;> omega
    · rw [if_neg hcell, h.cell p hp hp']
      have hne : p ≠ r.latest n := by
        rintro rfl
        exact hcell hmod
      have hsame : (r.first ≤ p ∧ p < r.next) ↔
          ((if r.latest n = r.next then r.first else r.latest n) ≤ p ∧ p < r.latest n + 1) := by
        split <;> omega
      simp only [hsame]
  · intro c hc hunused
    dsimp only at hunused ⊢
    split
    · rfl
    · exact h.unused c hc hunused

end Latest

theorem lap_settled (h : LapHolds empty n cells items r) (hn : 0 < n) (hnext : r.next = r.pushed)
    (hsettled : r.Settled n) : cells (r.next % n) = empty := by
  have hor := hsettled hnext
  rcases Nat.lt_or_ge r.pushed n with hlt | hge
  · rw [hnext, Nat.mod_eq_of_lt hlt]
    exact h.unused _ hlt (Nat.le_refl _)
  · have hcell := h.cell (r.pushed - n) (by omega) (by omega)
    rw [if_pos (by omega)] at hcell
    rw [hnext, ← hcell, ← Nat.mod_eq_sub_mod hge]

theorem lap_stale (h : LapHolds empty n cells items r) (hn : 0 < n) (hsettled : ¬ r.Settled n) :
    r.next = r.pushed ∧ n ≤ r.pushed ∧ cells (r.next % n) = items (r.pushed - n) := by
  unfold Lap.Settled at hsettled
  push Not at hsettled
  obtain ⟨hnext, hzero, hround⟩ := hsettled
  have hfirst := h.first_le
  have hge := h.jumped.resolve_left hzero
  have hcell := h.cell (r.pushed - n) (by omega) (by omega)
  rw [if_neg (by omega)] at hcell
  refine ⟨hnext, by omega, ?_⟩
  rw [← hcell, hnext, ← Nat.mod_eq_sub_mod (by omega)]

end PeachOS.Lib
