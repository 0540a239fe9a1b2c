import Mathlib.Tactic.Common

/-!
# Runs of a state machine

A run applies a step function to one action after the other. An invariant that every step preserves
holds after the run, and what the invariant gives at a step holds at every step of the run.
-/

namespace PeachOS.Lib

variable {σ α : Type} {step : σ → α → σ}

/-- `P` holds at every step of the run, of the state before the step and the action. -/
def Along (step : σ → α → σ) (P : σ → α → Prop) : List α → σ → Prop
  | [], _ => True
  | a :: as, s => P s a ∧ Along step P as (step s a)

theorem along_of_inv (Inv : σ → Prop) (Cond Post : σ → α → Prop)
    (h : ∀ s a, Inv s → Cond s a → Inv (step s a) ∧ Post s a) (as : List α) (s : σ) (hs : Inv s)
    (hc : Along step Cond as s) : Along step Post as s := by
  induction as generalizing s with
  | nil => trivial
  | cons a as ih =>
    obtain ⟨hinv, hpost⟩ := h s a hs hc.1
    exact ⟨hpost, ih (step s a) hinv hc.2⟩

theorem along_last (P : σ → α → Prop) (as : List α) (a : α) (s : σ)
    (h : Along step P (as ++ [a]) s) : P (as.foldl step s) a := by
  induction as generalizing s with
  | nil => exact h.1
  | cons b as ih => exact ih (step s b) h.2

theorem along_init (P : σ → α → Prop) (as : List α) (a : α) (s : σ)
    (h : Along step P (as ++ [a]) s) : Along step P as s := by
  induction as generalizing s with
  | nil => trivial
  | cons b as ih => exact ⟨h.1, ih (step s b) h.2⟩

theorem along_and {P Q : σ → α → Prop} (as : List α) (s : σ) (hp : Along step P as s)
    (hq : Along step Q as s) : Along step (fun s a => P s a ∧ Q s a) as s := by
  induction as generalizing s with
  | nil => trivial
  | cons a as ih => exact ⟨⟨hp.1, hq.1⟩, ih (step s a) hp.2 hq.2⟩

theorem along_or_first (P : σ → α → Prop) (as : List α) (s : σ) :
    Along step P as s ∨ ∃ pre a post, as = pre ++ a :: post ∧ Along step P pre s ∧ ¬ P (pre.foldl step s) a := by
  induction as generalizing s with
  | nil => exact Or.inl trivial
  | cons a as ih =>
    by_cases ha : P s a
    · rcases ih (step s a) with hal | ⟨pre, b, post, heq, hpre, hb⟩
      · exact Or.inl ⟨ha, hal⟩
      · exact Or.inr ⟨a :: pre, b, post, by rw [heq]; rfl, ⟨ha, hpre⟩, hb⟩
    · exact Or.inr ⟨[], a, as, rfl, trivial, ha⟩

theorem along_take (P : σ → α → Prop) (as : List α) (n : Nat) (s : σ) (h : Along step P as s) :
    Along step P (as.take n) s := by
  induction as generalizing n s with
  | nil => simpa using h
  | cons a as ih =>
    cases n with
    | zero => trivial
    | succ n => exact ⟨h.1, ih n (step s a) h.2⟩

theorem foldl_keeps (Inv : σ → Prop) (h : ∀ s a, Inv s → Inv (step s a)) (as : List α) (s : σ)
    (hs : Inv s) : Inv (as.foldl step s) := by
  induction as generalizing s with
  | nil => exact hs
  | cons a as ih => exact ih (step s a) (h s a hs)

theorem along_keeps (Inv : σ → Prop) (Cond : σ → α → Prop) (h : ∀ s a, Inv s → Cond s a → Inv (step s a)) (as : List α)
    (s : σ) (hs : Inv s) (hc : Along step Cond as s) : Inv (as.foldl step s) := by
  induction as generalizing s with
  | nil => exact hs
  | cons a as ih => exact ih (step s a) (h s a hs hc.1) hc.2

theorem along_of_forall (Q : α → Prop) (as : List α) (h : ∀ a ∈ as, Q a) (s : σ) :
    Along step (fun _ a => Q a) as s := by
  induction as generalizing s with
  | nil => trivial
  | cons a as ih =>
    exact ⟨h a List.mem_cons_self, ih (fun b hb => h b (List.mem_cons_of_mem a hb)) (step s a)⟩

theorem along_iff (Inv : σ → Prop) (Ok Cond Post : σ → α → Prop)
    (hstep : ∀ s a, Inv s → Ok s a → Cond s a → Inv (step s a) ∧ Post s a)
    (hbreak : ∀ s a, Inv s → Ok s a → ¬ Cond s a → ¬ Post s a) (as : List α) (s : σ)
    (hok : Along step Ok as s) (hs : Inv s) : Along step Post as s ↔ Along step Cond as s := by
  induction as generalizing s with
  | nil => exact Iff.rfl
  | cons a as ih =>
    obtain ⟨ha, hrest⟩ := hok
    constructor
    · rintro ⟨hpost, hal⟩
      have hc : Cond s a := by
        by_contra hc
        exact hbreak s a hs ha hc hpost
      exact ⟨hc, (ih (step s a) hrest (hstep s a hs ha hc).1).mp hal⟩
    · rintro ⟨hc, hal⟩
      obtain ⟨hinv, hpost⟩ := hstep s a hs ha hc
      exact ⟨hpost, (ih (step s a) hrest hinv).mpr hal⟩

theorem along_states (P : σ → Prop) (as : List α) (s : σ) (hs : P s) :
    Along step (fun s a => P (step s a)) as s ↔ ∀ n, P ((as.take n).foldl step s) := by
  induction as generalizing s with
  | nil => exact ⟨fun _ n => by simpa using hs, fun _ => trivial⟩
  | cons a as ih =>
    constructor
    · rintro ⟨ha, hal⟩ n
      rcases n with _ | n
      · exact hs
      · exact (ih (step s a) ha).mp hal n
    · exact fun h => ⟨h 1, (ih (step s a) (h 1)).mpr fun n => h (n + 1)⟩

end PeachOS.Lib
