import PeachOS.Lib.Search
import PeachOS.Spec.Layout

/-!
# Searching the root directory

The loops that look for a name or for a free slot. They read the in-memory directory only.
-/

open PeachOS.Lib

namespace PeachOS

/-- The name of an entry is `name`, up to case. -/
def Matches (it : FatDirectoryItem) (name : Nat → UInt8) : Prop :=
  istrncmp (fat16_tmp_filename it) name 108 = 0

instance (it : FatDirectoryItem) (name : Nat → UInt8) : Decidable (Matches it name) :=
  inferInstanceAs (Decidable (_ = _))

/-- A slot that can take a new file: never used, or deleted. -/
def FreeSlot (it : FatDirectoryItem) : Prop := it.filename 0 = 0x00 ∨ it.filename 0 = 0xE5

instance (it : FatDirectoryItem) : Decidable (FreeSlot it) := inferInstanceAs (Decidable (_ ∨ _))

theorem not_live_of_freeSlot (it : FatDirectoryItem) (h : FreeSlot it) : ¬ Live it := by
  rintro ⟨h0, h5, -⟩
  rcases h with h | h
  · exact h0 h
  · exact h5 h

namespace Fat

variable {p : FatPrivate}

/-- The result of looking for `name` in `n` slots from `i` on: the first live slot with the name, before
any never-used slot, or `-1`. -/
def NameSearch (p : FatPrivate) (name : Nat → UInt8) (i n : Nat) (r : Int) : Prop :=
  (∃ j : Nat, r = j ∧ i ≤ j ∧ j < i + n ∧ Live (p.root_directory.item j) ∧
    Matches (p.root_directory.item j) name ∧
    ∀ k, i ≤ k → k < j → (p.root_directory.item k).filename 0 ≠ 0x00 ∧
      ¬ (Live (p.root_directory.item k) ∧ Matches (p.root_directory.item k) name)) ∨
  (r = -1 ∧ ∀ j, i ≤ j → j < i + n →
    (∀ k, i ≤ k → k ≤ j → (p.root_directory.item k).filename 0 ≠ 0x00) →
      ¬ (Live (p.root_directory.item j) ∧ Matches (p.root_directory.item j) name))

theorem nameSearch_skip (name : Nat → UInt8) (i n : Nat) (r : Int)
    (hused : (p.root_directory.item i).filename 0 ≠ 0x00)
    (hno : ¬ (Live (p.root_directory.item i) ∧ Matches (p.root_directory.item i) name))
    (h : NameSearch p name (i + 1) n r) : NameSearch p name i (n + 1) r := by
  rcases h with ⟨j, hr, h1, h2, hlive, hname, hbefore⟩ | ⟨hr, hall⟩
  · refine Or.inl ⟨j, hr, by omega, by omega, hlive, hname, fun k hk hkj => ?_⟩
    rcases Nat.eq_or_lt_of_le hk with rfl | hk
    · exact ⟨hused, hno⟩
    · exact hbefore k hk hkj
  · refine Or.inr ⟨hr, fun j h1 h2 hu => ?_⟩
    rcases Nat.eq_or_lt_of_le h1 with rfl | h1
    · exact hno
    · exact hall j h1 (by omega) (fun k hk hkj => hu k (by omega) hkj)

theorem fat16_find_root_dir_slot_loop_spec (name : Nat → UInt8) (n i : Nat) :
    NameSearch p name i n (fat16_find_root_dir_slot_loop p name n i) := by
  induction n generalizing i with
  | zero => exact Or.inr ⟨rfl, fun j h1 h2 => by omega⟩
  | succ n ih =>
    rw [fat16_find_root_dir_slot_loop]
    by_cases h0 : (p.root_directory.item i).filename 0 = 0x00
    · rw [if_pos h0]
      exact Or.inr ⟨rfl, fun j h1 _ hu => absurd h0 (hu i (Nat.le_refl i) h1)⟩
    rw [if_neg h0]
    by_cases h5 : (p.root_directory.item i).filename 0 = 0xE5
    · rw [if_pos h5]
      exact nameSearch_skip name i n _ h0 (fun h => h.1.2.1 h5) (ih (i + 1))
    rw [if_neg h5]
    by_cases ha : (p.root_directory.item i).attr = 0x0F
    · rw [if_pos ha]
      exact nameSearch_skip name i n _ h0 (fun h => h.1.2.2 ha) (ih (i + 1))
    rw [if_neg ha]
    by_cases hm : istrncmp (fat16_tmp_filename (p.root_directory.item i)) name 108 = 0
    · rw [if_pos hm]
      exact Or.inl ⟨i, rfl, Nat.le_refl i, by omega, ⟨h0, h5, ha⟩, hm, fun k h1 h2 => by omega⟩
    · rw [if_neg hm]
      exact nameSearch_skip name i n _ h0 (fun h => hm h.2) (ih (i + 1))

theorem fat16_find_free_root_dir_slot_loop_spec (n i : Nat) :
    (∃ j : Nat, fat16_find_free_root_dir_slot_loop p n i = (j : Int) ∧
      First (fun k => FreeSlot (p.root_directory.item k)) i n j) ∨
    (fat16_find_free_root_dir_slot_loop p n i = -ENOMEM ∧
      ∀ j, i ≤ j → j < i + n → ¬ FreeSlot (p.root_directory.item j)) :=
  search_spec (fat16_find_free_root_dir_slot_loop p) (-ENOMEM) (fun _ => rfl) (fun _ _ => rfl) n i

variable {L : Layout}

theorem fat16_find_root_dir_slot_by_name_spec (hm : Mounted p L) (name : Nat → UInt8) :
    (∃ j : Nat, fat16_find_root_dir_slot_by_name p name = (j : Int) ∧ j < L.rde ∧
      Live (p.root_directory.item j) ∧ Matches (p.root_directory.item j) name ∧
      ∀ k < j, (p.root_directory.item k).filename 0 ≠ 0x00 ∧
        ¬ (Live (p.root_directory.item k) ∧ Matches (p.root_directory.item k) name)) ∨
    (fat16_find_root_dir_slot_by_name p name = -1 ∧
      ∀ j < L.rde, (∀ k ≤ j, (p.root_directory.item k).filename 0 ≠ 0x00) →
        ¬ (Live (p.root_directory.item j) ∧ Matches (p.root_directory.item j) name)) := by
  unfold fat16_find_root_dir_slot_by_name
  rw [hm.rde]
  rcases fat16_find_root_dir_slot_loop_spec (p := p) name L.rde 0 with ⟨j, heq, -, h2, hl, hn, hb⟩ | ⟨heq, hall⟩
  · exact Or.inl ⟨j, heq, by omega, hl, hn, fun k hk => hb k (Nat.zero_le k) hk⟩
  · exact Or.inr ⟨heq, fun j hj hused =>
      hall j (Nat.zero_le j) (by omega) (fun k _ hk => hused k hk)⟩

theorem fat16_find_free_root_dir_slot_spec (hm : Mounted p L) :
    (∃ j : Nat, fat16_find_free_root_dir_slot p = (j : Int) ∧ j < L.rde ∧
      FreeSlot (p.root_directory.item j) ∧ ∀ k < j, ¬ FreeSlot (p.root_directory.item k)) ∨
    (fat16_find_free_root_dir_slot p = -ENOMEM ∧
      ∀ j < L.rde, ¬ FreeSlot (p.root_directory.item j)) := by
  unfold fat16_find_free_root_dir_slot
  rw [hm.rde]
  rcases fat16_find_free_root_dir_slot_loop_spec L.rde 0 with ⟨j, heq, -, h2, hf, hb⟩ | ⟨heq, hall⟩
  · exact Or.inl ⟨j, heq, by omega, hf, fun k hk => hb k (Nat.zero_le k) hk⟩
  · exact Or.inr ⟨heq, fun j hj => hall j (Nat.zero_le j) (by omega)⟩

end Fat

end PeachOS
