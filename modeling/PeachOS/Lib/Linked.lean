import Mathlib.Tactic.Common
import Mathlib.Data.List.Nodup

/-!
# Doubly linked lists

The links are two functions on nodes, and `nil` is the node that is none.
-/

namespace PeachOS.Lib

variable {α : Type} {next prev next' prev' : α → α} {nil : α}

/-- Following `next` from `a` visits `l` and ends. -/
def Follows (next : α → α) (nil : α) : α → List α → Prop
  | a, [] => a = nil
  | a, x :: l => a = x ∧ x ≠ nil ∧ Follows next nil (next x) l

/-- The part `l` of a doubly linked list: it starts at `a`, after the node `p`, and ends with `q`. -/
def Linked (next prev : α → α) (nil : α) : α → α → List α → α → Prop
  | p, a, [], q => a = nil ∧ q = p
  | p, a, x :: l, q => a = x ∧ x ≠ nil ∧ prev x = p ∧ Linked next prev nil x (next x) l q

theorem linked_follows (p a q : α) (l : List α) (h : Linked next prev nil p a l q) :
    Follows next nil a l := by
  induction l generalizing p a with
  | nil => exact h.1
  | cons x l ih =>
    obtain ⟨h1, h2, -, h⟩ := h
    exact ⟨h1, h2, ih x (next x) h⟩

theorem follows_ne_nil (a : α) (l : List α) (h : Follows next nil a l) : nil ∉ l := by
  induction l generalizing a with
  | nil => exact List.not_mem_nil
  | cons x l ih =>
    obtain ⟨-, h2, h⟩ := h
    exact List.not_mem_cons_of_ne_of_not_mem h2.symm (ih (next x) h)

theorem linked_ne_nil (p a q : α) (l : List α) (h : Linked next prev nil p a l q) : nil ∉ l :=
  follows_ne_nil a l (linked_follows p a q l h)

theorem linked_last (p a q : α) (l : List α) (h : Linked next prev nil p a l q) :
    l = [] ∧ q = p ∨ q ∈ l := by
  induction l generalizing p a with
  | nil => exact Or.inl ⟨rfl, h.2⟩
  | cons x l ih =>
    obtain ⟨-, -, -, h⟩ := h
    rcases ih x (next x) h with ⟨-, rfl⟩ | hq
    · exact Or.inr List.mem_cons_self
    · exact Or.inr (List.mem_cons_of_mem x hq)

theorem linked_getLastD (p a q : α) (l : List α) (h : Linked next prev nil p a l q) :
    q = l.getLastD p := by
  induction l generalizing p a with
  | nil => exact h.2
  | cons x l ih =>
    rw [List.getLastD_cons]
    exact ih x (next x) h.2.2.2

theorem linked_last_next (p a q : α) (l : List α) (h : Linked next prev nil p a l q) (hl : l ≠ []) :
    next q = nil := by
  induction l generalizing p a with
  | nil => exact absurd rfl hl
  | cons x l ih =>
    obtain ⟨-, -, -, h⟩ := h
    cases l with
    | nil => rw [h.2, h.1]
    | cons y l => exact ih x (next x) h (by simp)

theorem linked_congr (p a q : α) (l : List α) (h : Linked next prev nil p a l q)
    (hnext : ∀ x ∈ l, next' x = next x) (hprev : ∀ x ∈ l, prev' x = prev x) :
    Linked next' prev' nil p a l q := by
  induction l generalizing p a with
  | nil => exact h
  | cons x l ih =>
    obtain ⟨h1, h2, h3, h⟩ := h
    refine ⟨h1, h2, (hprev x List.mem_cons_self).trans h3, ?_⟩
    rw [hnext x List.mem_cons_self]
    exact ih x (next x) h (fun y hy => hnext y (List.mem_cons_of_mem x hy))
      (fun y hy => hprev y (List.mem_cons_of_mem x hy))

theorem linked_next_ne (p a q : α) (l : List α) (h : Linked next prev nil p a l q) (hnodup : l.Nodup)
    (x : α) (hx : x ∈ l) : next x ≠ x := by
  induction l generalizing p a with
  | nil => cases hx
  | cons z l ih =>
    obtain ⟨-, h2, -, h⟩ := h
    obtain ⟨hz, hl⟩ := List.nodup_cons.mp hnodup
    rcases List.mem_cons.mp hx with rfl | hx
    · cases l with
      | nil =>
        rw [h.1]
        exact h2.symm
      | cons w l =>
        rw [h.1]
        exact fun hw => hz (hw ▸ List.mem_cons_self)
    · exact ih z (next z) h hl hx

theorem follows_pred (a : α) (l : List α) (h : Follows next nil a l) (y : α) (hy : y ∈ l) :
    y = a ∨ ∃ x ∈ l, next x = y := by
  induction l generalizing a with
  | nil => cases hy
  | cons z l ih =>
    obtain ⟨rfl, -, h⟩ := h
    rcases List.mem_cons.mp hy with rfl | hy
    · exact Or.inl rfl
    · rcases ih (next a) h hy with h1 | ⟨x, hx, h1⟩
      · exact Or.inr ⟨a, List.mem_cons_self, h1.symm⟩
      · exact Or.inr ⟨x, List.mem_cons_of_mem a hx, h1⟩

theorem linked_prev (p a q : α) (l : List α) (h : Linked next prev nil p a l q) (y : α) (hy : y ∈ l) :
    (y = a ∧ prev y = p) ∨ ∃ x ∈ l, prev y = x ∧ next x = y := by
  induction l generalizing p a with
  | nil => cases hy
  | cons z l ih =>
    obtain ⟨rfl, -, hz, h⟩ := h
    rcases List.mem_cons.mp hy with rfl | hy
    · exact Or.inl ⟨rfl, hz⟩
    · rcases ih a (next a) h hy with ⟨h1, h2⟩ | ⟨x, hx, h1, h2⟩
      · exact Or.inr ⟨a, List.mem_cons_self, h2, h1.symm⟩
      · exact Or.inr ⟨x, List.mem_cons_of_mem a hx, h1, h2⟩

theorem linked_next (p a q : α) (l : List α) (h : Linked next prev nil p a l q) (x : α) (hx : x ∈ l) :
    (x = q ∧ next x = nil) ∨ ∃ y ∈ l, next x = y ∧ prev y = x := by
  induction l generalizing p a with
  | nil => cases hx
  | cons z l ih =>
    obtain ⟨rfl, -, -, h⟩ := h
    rcases List.mem_cons.mp hx with rfl | hx
    · cases l with
      | nil => exact Or.inl ⟨h.2.symm, h.1⟩
      | cons w l => exact Or.inr ⟨w, by simp, h.1, h.2.2.1⟩
    · rcases ih a (next a) h hx with h1 | ⟨y, hy, h1⟩
      · exact Or.inl h1
      · exact Or.inr ⟨y, List.mem_cons_of_mem a hy, h1⟩

theorem linked_iff (a q : α) (l : List α) (h : Linked next prev nil nil a l q) (x y : α) (hx : x ∈ l)
    (hy : y ∈ l) : next x = y ↔ prev y = x := by
  have hnil := linked_ne_nil nil a q l h
  constructor
  · intro hxy
    rcases linked_next nil a q l h x hx with ⟨-, h0⟩ | ⟨y', -, h1, h2⟩
    · rw [← hxy, h0] at hy
      exact absurd hy hnil
    · rwa [← hxy, h1]
  · intro hyx
    rcases linked_prev nil a q l h y hy with ⟨-, h0⟩ | ⟨x', -, h1, h2⟩
    · rw [← hyx, h0] at hx
      exact absurd hx hnil
    · rwa [← hyx, h1]

theorem linked_prev_ne (a q : α) (l : List α) (h : Linked next prev nil nil a l q) (hnodup : l.Nodup)
    (y : α) (hy : y ∈ l) : prev y ≠ y := by
  intro heq
  rcases linked_prev nil a q l h y hy with ⟨-, h0⟩ | ⟨x, hx, h1, h2⟩
  · rw [← heq, h0] at hy
    exact linked_ne_nil nil a q l h hy
  · rw [heq] at h1
    subst h1
    exact linked_next_ne nil a q l h hnodup y hy h2

theorem linked_append (next' prev' : α → α) (p a q x : α) (l : List α)
    (h : Linked next prev nil p a l q) (hx : x ≠ nil) (hnodup : l.Nodup) (hnext : next' x = nil) (hprev : prev' x = q)
    (hlast : l ≠ [] → next' q = x) (hnexts : ∀ y ∈ l, y ≠ q → next' y = next y) (hprevs : ∀ y ∈ l, prev' y = prev y) :
    Linked next' prev' nil p (if l = [] then x else a) (l ++ [x]) x := by
  induction l generalizing p a with
  | nil => exact ⟨rfl, hx, hprev.trans h.2, hnext, rfl⟩
  | cons y l ih =>
    obtain ⟨h1, h2, h3, h⟩ := h
    have hy := (List.nodup_cons.mp hnodup).1
    refine ⟨h1, h2, (hprevs y List.mem_cons_self).trans h3, ?_⟩
    have hfirst : next' y = if l = [] then x else next y := by
      split
      · rename_i hl
        subst hl
        rw [← h.2]
        exact hlast (by simp)
      · rename_i hl
        rcases linked_last y (next y) q l h with ⟨h0, -⟩ | hq
        · exact absurd h0 hl
        · exact hnexts y List.mem_cons_self fun hyq => hy (hyq ▸ hq)
    rw [hfirst]
    exact ih y (next y) h (List.nodup_cons.mp hnodup).2 (fun _ => hlast (by simp))
      (fun z hz => hnexts z (List.mem_cons_of_mem y hz))
      (fun z hz => hprevs z (List.mem_cons_of_mem y hz))

theorem linked_remove_last (next' prev' : α → α) (p a q x : α) (l : List α)
    (h : Linked next prev nil p a (l ++ [x]) q) (hnodup : l.Nodup) (hlast : l ≠ [] → next' (prev x) = nil)
    (hnexts : ∀ y ∈ l, y ≠ prev x → next' y = next y) (hprevs : ∀ y ∈ l, prev' y = prev y) :
    Linked next' prev' nil p (if l = [] then nil else a) l (prev x) := by
  induction l generalizing p a with
  | nil => exact ⟨rfl, h.2.2.1⟩
  | cons y l ih =>
    obtain ⟨h1, h2, h3, h⟩ := h
    have hy := (List.nodup_cons.mp hnodup).1
    have hrest := ih y (next y) h (List.nodup_cons.mp hnodup).2 (fun _ => hlast (by simp))
      (fun z hz => hnexts z (List.mem_cons_of_mem y hz))
      (fun z hz => hprevs z (List.mem_cons_of_mem y hz))
    refine ⟨h1, h2, (hprevs y List.mem_cons_self).trans h3, ?_⟩
    have hfirst : next' y = if l = [] then nil else next y := by
      split
      · rename_i hl
        subst hl
        rw [← hrest.2]
        exact hlast (by simp)
      · rename_i hl
        rcases linked_last y _ (prev x) l hrest with ⟨h0, -⟩ | hq
        · exact absurd h0 hl
        · exact hnexts y List.mem_cons_self fun hyq => hy (hyq ▸ hq)
    rw [hfirst]
    exact hrest

end PeachOS.Lib
