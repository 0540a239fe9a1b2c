import PeachOS.Lib.Search
import PeachOS.Spec.RootDirectory
import PeachOS.Streamer

/-!
# Counting the entries of a directory

`fat16_get_total_items_for_directory` goes from slot to slot up to the first one that starts with 0x00, and counts
those that are not deleted. Nothing else ends it.
-/

open PeachOS.Lib PeachOS.Streamer

namespace PeachOS.Fat

variable {d : Disk} {pos : Int}

theorem diskstreamer_read_item (stream : Int) : ∃ bytes,
    diskstreamer_read d ⟨stream, 0⟩ (fun _ => 0) 32 = (0, bytes, ⟨i32 (stream + 32), 0⟩) := ⟨_, rfl⟩

theorem i32_next (x : Int) (i : Nat) : i32 (i32 (x + 32 * i) + 32) = i32 (x + 32 * (i + 1 : Nat)) := by
  unfold i32
  rw [Int.bmod_add_bmod]
  congr 1
  omega

theorem fat16_get_total_items_loop_succ (fuel i : Nat) (count : Int) :
    fat16_get_total_items_loop d (fuel + 1) ⟨i32 (pos + 32 * i), 0⟩ count =
      if slotFirst d pos i = 0x00 then some count
      else if slotFirst d pos i = 0xE5 then fat16_get_total_items_loop d fuel ⟨i32 (pos + 32 * (i + 1 : Nat)), 0⟩ count
      else fat16_get_total_items_loop d fuel ⟨i32 (pos + 32 * (i + 1 : Nat)), 0⟩ (count + 1) := by
  rw [fat16_get_total_items_loop]
  unfold slotFirst
  obtain ⟨bytes, hread⟩ := diskstreamer_read_item (d := d) (i32 (pos + 32 * i))
  rw [hread, ← i32_next]
  rfl

/-- How many of the `n` slots from `i` on are not deleted. -/
def inUse (d : Disk) (pos : Int) (i n : Nat) : Nat := (List.range' i n).countP fun j => slotFirst d pos j ≠ 0xE5

theorem inUse_succ (i n : Nat) :
    inUse d pos i (n + 1) = (if slotFirst d pos i = 0xE5 then 0 else 1) + inUse d pos (i + 1) n := by
  unfold inUse
  rw [List.range'_succ, List.countP_cons, Nat.add_comm]
  simp

theorem inUse_le (d : Disk) (pos : Int) (i n : Nat) : inUse d pos i n ≤ n := by
  have h := List.countP_le_length (p := fun j => decide (slotFirst d pos j ≠ 0xE5)) (l := List.range' i n)
  rwa [List.length_range'] at h

theorem inUse_eq (i m n : Nat) (hm : m ≤ n) (hused : ∀ j < m, slotFirst d pos (i + j) ≠ 0xE5)
    (hdel : ∀ j, m ≤ j → j < n → slotFirst d pos (i + j) = 0xE5) : inUse d pos i n = m := by
  induction n generalizing i m with
  | zero => exact (Nat.le_zero.mp hm).symm
  | succ n ih =>
    have hshift : ∀ j, i + 1 + j = i + (j + 1) := by omega
    rw [inUse_succ]
    cases m with
    | zero =>
      have hfirst := hdel 0 (Nat.le_refl 0) (by omega)
      rw [Nat.add_zero] at hfirst
      rw [if_pos hfirst, ih (i + 1) 0 (Nat.zero_le n) (by omega)]
      intro j _ hj
      rw [hshift]
      exact hdel (j + 1) (by omega) (by omega)
    | succ m =>
      have hfirst := hused 0 (by omega)
      rw [Nat.add_zero] at hfirst
      rw [if_neg hfirst, ih (i + 1) m (by omega), Nat.add_comm]
      · intro j hj
        rw [hshift]
        exact hused (j + 1) (by omega)
      · intro j h1 h2
        rw [hshift]
        exact hdel (j + 1) (by omega) (by omega)

theorem total_items_loop_spec (d : Disk) (pos : Int) (fuel i : Nat) (count : Int) :
    (∃ n, First (fun j => slotFirst d pos j = 0x00) i fuel (i + n) ∧
      fat16_get_total_items_loop d fuel ⟨i32 (pos + 32 * i), 0⟩ count = some (count + inUse d pos i n)) ∨
    (fat16_get_total_items_loop d fuel ⟨i32 (pos + 32 * i), 0⟩ count = none ∧
      ∀ j, i ≤ j → j < i + fuel → slotFirst d pos j ≠ 0x00) := by
  induction fuel generalizing i count with
  | zero =>
    refine Or.inr ⟨rfl, ?_⟩
    intro j h1 h2
    omega
  | succ fuel ih =>
    rw [fat16_get_total_items_loop_succ]
    by_cases h0 : slotFirst d pos i = 0x00
    · refine Or.inl ⟨0, ⟨Nat.le_refl i, by omega, h0, ?_⟩, ?_⟩
      · intro j h1 h2
        omega
      · rw [if_pos h0]
        simp [inUse]
    rw [if_neg h0]
    have hskip : ∀ j, i ≤ j → (i + 1 ≤ j → slotFirst d pos j ≠ 0x00) → slotFirst d pos j ≠ 0x00 := by
      intro j hj hrest
      rcases Nat.eq_or_lt_of_le hj with rfl | hlt
      · exact h0
      · exact hrest hlt
    have hstep : (if slotFirst d pos i = 0xE5 then
          fat16_get_total_items_loop d fuel ⟨i32 (pos + 32 * (i + 1 : Nat)), 0⟩ count
        else fat16_get_total_items_loop d fuel ⟨i32 (pos + 32 * (i + 1 : Nat)), 0⟩ (count + 1)) =
        fat16_get_total_items_loop d fuel ⟨i32 (pos + 32 * (i + 1 : Nat)), 0⟩
          (count + (if slotFirst d pos i = 0xE5 then 0 else 1 : Nat)) := by
      split <;> simp
    rw [hstep]
    rcases ih (i + 1) (count + (if slotFirst d pos i = 0xE5 then 0 else 1 : Nat)) with ⟨n, hn, heq⟩ | ⟨heq, hall⟩
    · refine Or.inl ⟨n + 1, ⟨by omega, by have := hn.lt; omega, ?_, ?_⟩, ?_⟩
      · rw [show i + (n + 1) = i + 1 + n by omega]
        exact hn.holds
      · intro j h1 h2
        exact hskip j h1 fun h => hn.before j h (by omega)
      · rw [heq, inUse_succ]
        congr 1
        omega
    · refine Or.inr ⟨heq, ?_⟩
      intro j h1 h2
      exact hskip j h1 fun h => hall j h (by omega)

theorem total_items_spec (sector : Int) (fuel : Nat) (hpos : pos = sector * 512) :
    (∃ n, First (fun j => slotFirst d pos j = 0x00) 0 fuel n ∧
      fat16_get_total_items_for_directory fuel d sector = some (inUse d pos 0 n : Int)) ∨
    (fat16_get_total_items_for_directory fuel d sector = none ∧ ∀ j < fuel, slotFirst d pos j ≠ 0x00) := by
  have hloop : fat16_get_total_items_for_directory fuel d sector =
      fat16_get_total_items_loop d fuel ⟨i32 (pos + 32 * (0 : Nat)), 0⟩ 0 := by
    rw [hpos, Int.natCast_zero, Int.mul_zero, Int.add_zero]
    rfl
  rw [hloop]
  rcases total_items_loop_spec d pos fuel 0 0 with ⟨n, hn, heq⟩ | ⟨heq, hall⟩
  · rw [Nat.zero_add] at hn
    exact Or.inl ⟨n, hn, by rw [heq, Int.zero_add]⟩
  · refine Or.inr ⟨heq, ?_⟩
    intro j hj
    exact hall j (Nat.zero_le j) (by omega)

theorem total_items_eq (sector : Int) (fuel m n : Nat) (total : Int) (hpos : pos = sector * 512)
    (hcount : fat16_get_total_items_for_directory fuel d sector = some total) (hm : m ≤ n)
    (hused : ∀ j < m, slotFirst d pos j ≠ 0x00 ∧ slotFirst d pos j ≠ 0xE5)
    (hdel : ∀ j, m ≤ j → j < n → slotFirst d pos j = 0xE5) (hend : slotFirst d pos n = 0x00) : total = m := by
  rcases total_items_spec (d := d) sector fuel hpos with ⟨k, hk, heq⟩ | ⟨heq, -⟩
  · have hkn : k = n := by
      rcases Nat.lt_trichotomy k n with hlt | hsame | hgt
      · by_cases hkm : k < m
        · exact absurd hk.holds (hused k hkm).1
        · have hE5 := hdel k (by omega) hlt
          rw [hk.holds] at hE5
          cases hE5
      · exact hsame
      · exact absurd hend (hk.before n (Nat.zero_le n) hgt)
    have huse : inUse d pos 0 n = m := by
      refine inUse_eq 0 m n hm ?_ ?_
      · intro j hj
        rw [Nat.zero_add]
        exact (hused j hj).2
      · intro j h1 h2
        rw [Nat.zero_add]
        exact hdel j h1 h2
    rw [heq, hkn, huse] at hcount
    exact (Option.some.inj hcount).symm
  · rw [heq] at hcount
    cases hcount

theorem total_items_ends (sector : Int) (fuel n : Nat) (hpos : pos = sector * 512) (hn : n < fuel)
    (hend : slotFirst d pos n = 0x00) : fat16_get_total_items_for_directory fuel d sector ≠ none := by
  rcases total_items_spec (d := d) sector fuel hpos with ⟨k, -, heq⟩ | ⟨-, hall⟩
  · rw [heq]
    exact Option.some_ne_none _
  · exact absurd hend (hall n hn)

theorem slotFirst_cell (start i : Nat) (halign : start % 32 = 0) (h : start + 32 * i + 32 ≤ 0x80000000) :
    slotFirst d start i = cellAt d.sector (start + 32 * i) := by
  unfold slotFirst
  rw [i32_of_lt _ (by omega) (by omega), show (start : Int) + 32 * i = ((start + 32 * i : Nat) : Int) by omega,
    show (32 : Int) = ((32 : Nat) : Int) from rfl,
    diskstreamer_read_spec d (start + 32 * i) _ 32 h (Or.inr (by omega))]
  rfl

end PeachOS.Fat
