import Mathlib.Data.List.Nodup
import Mathlib.Data.List.Perm.Subperm
import Mathlib.Logic.Function.Iterate
import Mathlib.Tactic.Common

/-!
# Chains in a successor table

A table `next` links nodes. A chain is the list of nodes that following `next` from a first node
visits: every node is `ok`, none repeats, and the last one links to a `stop` value.
-/

namespace PeachOS.Lib

variable {α : Type} {next next' : α → α} {ok stop : α → Prop}

inductive Chain (next : α → α) (ok stop : α → Prop) : α → List α → Prop
  | last (c : α) : ok c → stop (next c) → Chain next ok stop c [c]
  | cons (c : α) (l : List α) : ok c → c ∉ l → Chain next ok stop (next c) l →
      Chain next ok stop c (c :: l)

theorem chain_head (c : α) (l : List α) (h : Chain next ok stop c l) : l.head? = some c := by
  cases h <;> rfl

theorem chain_ne_nil (c : α) (l : List α) (h : Chain next ok stop c l) : l ≠ [] := by
  cases h <;> simp

theorem chain_ok (c : α) (l : List α) (h : Chain next ok stop c l) : ∀ x ∈ l, ok x := by
  induction h with
  | last c hc _ => simpa using hc
  | cons c l hc _ _ ih =>
    intro x hx
    rcases List.mem_cons.mp hx with rfl | hx
    · exact hc
    · exact ih x hx

theorem chain_nodup (c : α) (l : List α) (h : Chain next ok stop c l) : l.Nodup := by
  induction h with
  | last c _ _ => simp
  | cons c l _ hn _ ih => exact List.nodup_cons.mpr ⟨hn, ih⟩

theorem chain_mem_first (c : α) (l : List α) (h : Chain next ok stop c l) : c ∈ l := by
  cases h <;> simp

theorem chain_congr (c : α) (l : List α) (h : Chain next ok stop c l)
    (heq : ∀ x ∈ l, next' x = next x) : Chain next' ok stop c l := by
  induction h with
  | last c hc hs => exact .last c hc (by rw [heq c (by simp)]; exact hs)
  | cons c l hc hn _ ih =>
    refine .cons c l hc hn ?_
    rw [heq c (by simp)]
    exact ih (fun x hx => heq x (List.mem_cons_of_mem _ hx))

theorem chain_unique (hos : ∀ c, ok c → ¬ stop c) (c : α) (l m : List α)
    (hl : Chain next ok stop c l) (hm : Chain next ok stop c m) : l = m := by
  induction hl generalizing m with
  | last c _ hs =>
    cases hm with
    | last _ _ _ => rfl
    | cons _ l _ _ ht => exact absurd hs (hos _ (chain_ok _ _ ht _ (chain_mem_first _ _ ht)))
  | cons c l _ _ ht ih =>
    cases hm with
    | last _ _ hs => exact absurd hs (hos _ (chain_ok _ _ ht _ (chain_mem_first _ _ ht)))
    | cons _ m _ _ ht' => rw [ih m ht']

theorem chain_next (c : α) (l : List α) (h : Chain next ok stop c l) (i : Nat) (x : α)
    (hx : l[i]? = some x) (hi : i + 1 < l.length) : l[i + 1]? = some (next x) := by
  induction h generalizing i with
  | last c _ _ => simp at hi
  | cons c l _ _ ht ih =>
    cases i with
    | zero =>
      simp only [List.getElem?_cons_zero, Option.some.injEq] at hx
      rw [← hx, List.getElem?_cons_succ, ← List.head?_eq_getElem?]
      exact chain_head _ _ ht
    | succ i =>
      rw [List.getElem?_cons_succ] at hx ⊢
      exact ih i hx (by simpa using hi)

theorem chain_iterate (c : α) (l : List α) (h : Chain next ok stop c l) (k : Nat) (hk : k < l.length) :
    l[k]? = some (next^[k] c) := by
  induction k with
  | zero =>
    rw [← List.head?_eq_getElem?]
    exact chain_head c l h
  | succ k ih =>
    rw [Function.iterate_succ_apply']
    exact chain_next c l h k _ (ih (by omega)) hk

theorem chain_stop (c : α) (l : List α) (h : Chain next ok stop c l) (x : α)
    (hx : l[l.length - 1]? = some x) : stop (next x) := by
  induction h with
  | last c _ hs =>
    simp only [List.length_singleton, Nat.sub_self, List.getElem?_cons_zero, Option.some.injEq] at hx
    rw [← hx]
    exact hs
  | cons c l _ _ ht ih =>
    obtain ⟨a, m, rfl⟩ := List.exists_cons_of_ne_nil (chain_ne_nil _ _ ht)
    apply ih
    simpa using hx

theorem chain_link (c : α) (l : List α) (h : Chain next ok stop c l) (x : α) (hx : x ∈ l) :
    stop (next x) ∨ ok (next x) := by
  induction h with
  | last c _ hs =>
    rw [List.mem_singleton.mp hx]
    exact Or.inl hs
  | cons c l _ _ ht ih =>
    rcases List.mem_cons.mp hx with rfl | hx
    · exact Or.inr (chain_ok _ _ ht _ (chain_mem_first _ _ ht))
    · exact ih hx

theorem chain_follow (c : α) (l : List α) (h : Chain next ok stop c l) (k : Nat) (x : α)
    (hx : l[k]? = some x) (hgo : ¬ stop (next x)) : l[k + 1]? = some (next x) := by
  have hk : k < l.length := (List.getElem?_eq_some_iff.mp hx).1
  by_cases hlast : k + 1 < l.length
  · exact chain_next c l h k x hx hlast
  · refine absurd (chain_stop c l h x ?_) hgo
    rw [show l.length - 1 = k by omega]
    exact hx

theorem chain_closed (c : α) (l : List α) (h : Chain next ok stop c l) (x : α) (hx : x ∈ l)
    (hgo : ¬ stop (next x)) : next x ∈ l := by
  obtain ⟨k, hk⟩ := List.mem_iff_getElem?.mp hx
  exact List.mem_of_getElem? (chain_follow c l h k x hk hgo)

theorem chain_at_end (c : α) (l : List α) (h : Chain next ok stop c l) (k : Nat) (x : α)
    (hx : l[k]? = some x) (hbad : ¬ ok (next x)) : k + 1 = l.length := by
  have hk : k < l.length := (List.getElem?_eq_some_iff.mp hx).1
  by_contra hne
  have hmem := List.mem_of_getElem? (chain_next c l h k x hx (by omega))
  exact hbad (chain_ok c l h _ hmem)

theorem chain_extend (c : α) (l : List α) (h : Chain next ok stop c l) (p n : α)
    (hp : l[l.length - 1]? = some p) (hn : n ∉ l) (hok : ok n) (hstop : stop (next' n))
    (hlink : next' p = n) (heq : ∀ x ∈ l, x ≠ p → next' x = next x) :
    Chain next' ok stop c (l ++ [n]) := by
  induction h with
  | last c hc _ =>
    simp only [List.length_singleton, Nat.sub_self, List.getElem?_cons_zero, Option.some.injEq] at hp
    subst hp
    refine .cons c [n] hc ?_ ?_
    · simpa [eq_comm] using hn
    · rw [hlink]
      exact .last n hok hstop
  | cons c l hc hcl ht ih =>
    obtain ⟨a, m, rfl⟩ := List.exists_cons_of_ne_nil (chain_ne_nil _ _ ht)
    have hp' : (a :: m)[(a :: m).length - 1]? = some p := by simpa using hp
    have hpmem : p ∈ a :: m := List.mem_of_getElem? hp'
    have hcp : c ≠ p := fun e => hcl (e ▸ hpmem)
    have hnl : n ∉ a :: m := fun hm => hn (List.mem_cons_of_mem _ hm)
    refine .cons c (a :: m ++ [n]) hc ?_ ?_
    · rw [List.mem_append]
      rintro (hm | hm)
      · exact hcl hm
      · exact hn (by simp_all)
    · rw [heq c (by simp) hcp]
      exact ih hp' hnl (fun x hx => heq x (List.mem_cons_of_mem _ hx))

/-- The nodes that following the table from `c` visits, at most `n`. -/
def walk (next : α → α) (stop : α → Bool) : Nat → α → List α
  | 0, _ => []
  | n + 1, c => c :: if stop (next c) then [] else walk next stop n (next c)

theorem walk_of_chain (stop' : α → Bool) (hs : ∀ c, stop' c = true ↔ stop c)
    (hos : ∀ c, ok c → ¬ stop c) (n : Nat) (c : α) (l : List α) (h : Chain next ok stop c l)
    (hn : l.length ≤ n) : walk next stop' n c = l := by
  induction h generalizing n with
  | last c _ hst =>
    obtain ⟨n, rfl⟩ : ∃ k, n = k + 1 := ⟨n - 1, by simp at hn; omega⟩
    simp [walk, (hs _).mpr hst]
  | cons c l _ _ ht ih =>
    obtain ⟨n, rfl⟩ : ∃ k, n = k + 1 := ⟨n - 1, by simp at hn; omega⟩
    have hgo : ¬ stop' (next c) = true := by
      rw [hs]
      exact hos _ (chain_ok _ _ ht _ (chain_mem_first _ _ ht))
    rw [walk, if_neg hgo, ih n (by simpa using hn)]

theorem nodup_length_le (l : List Nat) (lo n : Nat) (hd : l.Nodup)
    (hr : ∀ c ∈ l, lo ≤ c ∧ c < lo + n) : l.length ≤ n := by
  have hsub : l ⊆ List.range' lo n := by
    intro c hc
    have := hr c hc
    rw [List.mem_range'_1]
    omega
  have := (List.subperm_of_subset hd hsub).length_le
  simpa using this

end PeachOS.Lib
