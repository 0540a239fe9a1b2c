import Mathlib.Data.Finset.Card
import Mathlib.Data.Finset.Filter
import Mathlib.Logic.Function.Basic
import Mathlib.Tactic.Common

/-!
# Walks that erase the links they follow

A walk reads the link of a node, overwrites it with a value that leads nowhere, and goes on to the
node it led to. It keeps no record of the nodes it has been at: a node it comes back to has no link
any more, so it ends on every table, cyclic ones included.
-/

namespace PeachOS.Lib

variable {α : Type} {ok : α → Prop} {t : α → α} {z c : α}

/-- The nodes on the way from `c`, a link being followed only if it leads to an `ok` node. -/
inductive OnWay (ok : α → Prop) (t : α → α) (c : α) : α → Prop
  | first : OnWay ok t c c
  | next (x : α) : OnWay ok t c x → ok (t x) → OnWay ok t c (t x)

theorem onWay_ok (hc : ok c) (x : α) (h : OnWay ok t c x) : ok x := by
  cases h with
  | first => exact hc
  | next x _ hx => exact hx

theorem onWay_end (h : ¬ ok (t c)) (x : α) : OnWay ok t c x ↔ x = c := by
  constructor
  · intro hx
    induction hx with
    | first => rfl
    | next x _ hok ih =>
      rw [ih] at hok
      exact absurd hok h
  · rintro rfl
    exact .first

variable [DecidableEq α]

/-- Erasing the first link loses no node of the way: a way that comes back to `c` goes on to nodes it
has passed already. -/
theorem onWay_erase (hz : ¬ ok z) (hc : ok (t c)) (x : α) :
    OnWay ok t c x ↔ x = c ∨ OnWay ok (Function.update t c z) (t c) x := by
  constructor
  · intro hx
    induction hx with
    | first => exact Or.inl rfl
    | next x _ hok ih =>
      right
      by_cases hxc : x = c
      · rw [hxc]
        exact .first
      · have hx := OnWay.next x (ih.resolve_left hxc) (by rwa [Function.update_of_ne hxc])
        rwa [Function.update_of_ne hxc] at hx
  · rintro (rfl | hx)
    · exact .first
    · induction hx with
      | first => exact .next c .first hc
      | next x _ hok ih =>
        by_cases hxc : x = c
        · rw [hxc, Function.update_self] at hok
          exact absurd hok hz
        · rw [Function.update_of_ne hxc] at hok ⊢
          exact .next x ih hok

/-- The nodes of `S` that have a link. -/
def linked (z : α) (S : Finset α) (t : α → α) : Finset α := S.filter fun x => t x ≠ z

theorem linked_erase (S : Finset α) (hc : c ∈ S) (h : t c ≠ z) :
    (linked z S (Function.update t c z)).card < (linked z S t).card := by
  have hmem : c ∈ linked z S t := Finset.mem_filter.mpr ⟨hc, h⟩
  have hsub : linked z S (Function.update t c z) ⊆ (linked z S t).erase c := by
    intro x hx
    obtain ⟨hxS, hx⟩ := Finset.mem_filter.mp hx
    have hxc : x ≠ c := by
      rintro rfl
      exact hx (Function.update_self x z t)
    rw [Function.update_of_ne hxc] at hx
    exact Finset.mem_erase.mpr ⟨hxc, Finset.mem_filter.mpr ⟨hxS, hx⟩⟩
  exact Nat.lt_of_le_of_lt (Finset.card_le_card hsub) (Finset.card_erase_lt_of_mem hmem)

/-- A walk over states `σ` that erases the link of every node it is at. `cell` observes a state, and
`touches c` are the addresses that erasing the link of `c` blanks. -/
structure ErasingWalk (σ α β γ : Type) [DecidableEq α] where
  ok : α → Prop
  link : σ → α → α
  erase : σ → α → σ
  cell : σ → β → γ
  touches : α → β → Prop
  nowhere : α
  blank : γ
  /-- The state after at most so many turns, `none` if the walk has not ended by then. -/
  within : Nat → σ → α → Option σ
  nowhere_not_ok : ¬ ok nowhere
  link_erase : ∀ s c, ok c → link (erase s c) = Function.update (link s) c nowhere
  cell_inside : ∀ s c a, ok c → touches c a → cell (erase s c) a = blank
  cell_outside : ∀ s c a, ok c → ¬ touches c a → cell (erase s c) a = cell s a
  within_end : ∀ n s c, ok c → ¬ ok (link s c) → within (n + 1) s c = some (erase s c)
  within_next : ∀ n s c, ok c → ok (link s c) → within (n + 1) s c = within n (erase s c) (link s c)

/-- The walk ends within as many turns as there are links, and then exactly the nodes on the way have
been blanked. -/
theorem erasingWalk_ends {σ β γ : Type} (W : ErasingWalk σ α β γ) (S : Finset α)
    (hS : ∀ x, W.ok x → x ∈ S) (n : Nat) (s : σ) (c : α) (hc : W.ok c)
    (hn : (linked W.nowhere S (W.link s)).card < n) :
    ∃ s', W.within n s c = some s' ∧
      (∀ x a, OnWay W.ok (W.link s) c x → W.touches x a → W.cell s' a = W.blank) ∧
      ∀ a, (∀ x, OnWay W.ok (W.link s) c x → ¬ W.touches x a) → W.cell s' a = W.cell s a := by
  induction n generalizing s c with
  | zero => omega
  | succ n ih =>
    by_cases hnext : W.ok (W.link s c)
    · have hne : W.link s c ≠ W.nowhere := by
        intro h
        rw [h] at hnext
        exact W.nowhere_not_ok hnext
      have hless := linked_erase S (hS c hc) hne
      have hway := onWay_erase W.nowhere_not_ok hnext
      rw [← W.link_erase s c hc] at hless hway
      obtain ⟨s', heq, hin, hout⟩ := ih (W.erase s c) (W.link s c) hnext (by omega)
      refine ⟨s', by rw [W.within_next n s c hc hnext, heq], ?_, ?_⟩
      · intro x a hx hxa
        rcases (hway x).mp hx with rfl | hx
        · -- The first node may be passed again; if not, its cells stay as the first turn left them.
          by_cases hagain : ∃ y, OnWay W.ok (W.link (W.erase s x)) (W.link s x) y ∧ W.touches y a
          · obtain ⟨y, hy, hya⟩ := hagain
            exact hin y a hy hya
          · rw [hout a (fun y hy hya => hagain ⟨y, hy, hya⟩), W.cell_inside s x a hc hxa]
        · exact hin x a hx hxa
      · intro a ha
        rw [hout a (fun x hx => ha x ((hway x).mpr (Or.inr hx))),
          W.cell_outside s c a hc (ha c .first)]
    · refine ⟨W.erase s c, W.within_end n s c hc hnext, ?_, ?_⟩
      · intro x a hx hxa
        rw [(onWay_end hnext x).mp hx] at hxa
        exact W.cell_inside s c a hc hxa
      · intro a ha
        exact W.cell_outside s c a hc (ha c .first)

end PeachOS.Lib
