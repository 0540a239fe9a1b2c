import PeachOS.Code.Paging

/-!
# Words in memory

What reading and writing words, copying bytes and splitting page table entries do.
-/

namespace PeachOS.Memory

variable {mem mem' : Nat → UInt8}

theorem read32_congr (a b : Nat) (h : ∀ i < 4, mem' (b + i) = mem (a + i)) :
    read32 mem' b = read32 mem a := by
  unfold read32 le32
  dsimp only
  rw [h 0 (by omega), h 1 (by omega), h 2 (by omega), h 3 (by omega)]

theorem write32_of_not (a v x : Nat) (h : ¬ (a ≤ x ∧ x < a + 4)) : write32 mem a v x = mem x :=
  if_neg h

theorem read32_write32_same (a v : Nat) (h : v < 2 ^ 32) : read32 (write32 mem a v) a = v := by
  have hb : read32 (write32 mem a v) a = le32 (bytes32 v) := by
    unfold read32 le32
    simp [write32]
  rw [hb, le32_bytes32 v h]

theorem read32_write32_other (a b v : Nat) (h : a + 4 ≤ b ∨ b + 4 ≤ a) :
    read32 (write32 mem a v) b = read32 mem b :=
  read32_congr b b fun i _ => write32_of_not a v (b + i) (by omega)

/-! ## Copying -/

theorem memcpy_of_not (dest src len x : Nat) (h : ¬ (dest ≤ x ∧ x < dest + len)) :
    memcpy mem dest src len x = mem x := by
  induction len generalizing mem dest src with
  | zero => rfl
  | succ len ih =>
    rw [memcpy, ih (dest + 1) (src + 1) (by omega), if_neg (by omega)]

theorem memcpy_copies (dest src len : Nat) (h : dest + len ≤ src ∨ src + len ≤ dest) (i : Nat)
    (hi : i < len) : memcpy mem dest src len (dest + i) = mem (src + i) := by
  induction len generalizing mem dest src i with
  | zero => omega
  | succ len ih =>
    rw [memcpy]
    rcases i with _ | i
    · rw [memcpy_of_not _ _ _ _ (by omega), if_pos (by omega)]
      rfl
    · rw [show dest + (i + 1) = dest + 1 + i by omega, ih (dest + 1) (src + 1) (by omega) i (by omega),
        if_neg (by omega), show src + 1 + i = src + (i + 1) by omega]

/-! ## Entries -/

section Entries

variable (a f : Nat) (ha : a % 4096 = 0) (hf : f < 4096)

include ha hf

theorem or_eq_add : a ||| f = a + f := by
  have h := Nat.two_pow_add_eq_or_of_lt (i := 12) (b := f) hf (a / 4096)
  rw [show 2 ^ 12 * (a / 4096) = a by omega] at h
  exact h.symm

theorem or_lt (hlt : a < 2 ^ 32) : a ||| f < 2 ^ 32 := by
  rw [or_eq_add a f ha hf]
  omega

theorem flags_of_or : (a ||| f) &&& 0xfff = f := by
  rw [or_eq_add a f ha hf, show 0xfff = 2 ^ 12 - 1 from rfl, Nat.and_two_pow_sub_one_eq_mod]
  omega

end Entries

theorem table_of_eq (x : Nat) (hx : x < 2 ^ 32) : table_of x = x / 4096 * 4096 := by
  unfold table_of
  apply Nat.eq_of_testBit_eq
  intro i
  rw [Nat.testBit_and, show 0xfffff000 = (2 ^ 20 - 1) * 2 ^ 12 from rfl, Nat.testBit_mul_two_pow,
    show x / 4096 * 4096 = x / 2 ^ 12 * 2 ^ 12 from rfl, Nat.testBit_mul_two_pow,
    Nat.testBit_two_pow_sub_one, Nat.testBit_div_two_pow]
  by_cases h12 : 12 ≤ i
  · rw [Nat.sub_add_cancel h12]
    by_cases h32 : i - 12 < 20
    · simp [h12, h32]
    · have : x.testBit i = false := Nat.testBit_lt_two_pow (Nat.lt_of_lt_of_le hx
        (Nat.pow_le_pow_right (by omega) (by omega)))
      simp [this]
  · simp [h12]

theorem table_of_or (a f : Nat) (ha : a % 4096 = 0) (hlt : a < 2 ^ 32) (hf : f < 4096) :
    table_of (a ||| f) = a := by
  rw [table_of_eq _ (or_lt a f ha hf hlt), or_eq_add a f ha hf]
  omega

end PeachOS.Memory
