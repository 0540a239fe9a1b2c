import PeachOS.Spec.Layout
import PeachOS.Streamer
import Mathlib.Tactic.IntervalCases
import Mathlib.Tactic.Linarith

/-!
# The view of a disk under the four kinds of write

The driver writes FAT entries of either copy, directory entries and cluster data. Each is a splice
of the disk, and changes one component of the view.
-/

open PeachOS.Lib PeachOS.Streamer

namespace PeachOS.Fat

/-! ## Directory entries and their 32 bytes -/

theorem le16_congr (a b : Nat → UInt8) (h0 : a 0 = b 0) (h1 : a 1 = b 1) : le16 a = le16 b := by
  simp only [le16, h0, h1]

theorem le32_congr (a b : Nat → UInt8) (h : ∀ i < 4, a i = b i) : le32 a = le32 b := by
  simp only [le32, h 0 (by omega), h 1 (by omega), h 2 (by omega), h 3 (by omega)]

theorem u16_field (a : Nat → UInt8) (x : UInt16) (h : ∀ i < 2, a i = bytes16 x.toNat i) :
    UInt16.ofNat (le16 a) = x := by
  rw [le16_congr a (bytes16 x.toNat) (h 0 (by omega)) (h 1 (by omega)),
    le16_bytes16 _ x.toNat_lt, UInt16.ofNat_toNat]

theorem u32_field (a : Nat → UInt8) (x : UInt32) (h : ∀ i < 4, a i = bytes32 x.toNat i) :
    UInt32.ofNat (le32 a) = x := by
  rw [le32_congr a (bytes32 x.toNat) h, le32_bytes32 _ x.toNat_lt, UInt32.ofNat_toNat]

theorem ofBytes_byte (it : FatDirectoryItem) : FatDirectoryItem.ofBytes it.byte = it := by
  unfold FatDirectoryItem.ofBytes
  obtain ⟨fname, ext, attr, res, tenths, ct, cd, la, hi, mt, md, lo, size⟩ := it
  simp only [FatDirectoryItem.mk.injEq]
  refine ⟨?_, ?_, rfl, rfl, rfl, ?_, ?_, ?_, ?_, ?_, ?_, ?_, ?_⟩
  · funext i
    simp [FatDirectoryItem.byte]
  · funext i
    have := i.isLt
    simp [FatDirectoryItem.byte]
  all_goals
    first | apply u16_field | apply u32_field
    intro i hi'
    interval_cases i <;> rfl

theorem byte_ofBytes (b : Nat → UInt8) (k : Nat) (hk : k < 32) :
    (FatDirectoryItem.ofBytes b).byte k = b k := by
  have h16 : ∀ j i, i < 2 →
      bytes16 (UInt16.ofNat (le16 fun i => b (j + i))).toNat i = b (j + i) := by
    intro j i hi
    rw [UInt16.toNat_ofNat_of_lt' (le16_lt _)]
    exact bytes16_le16 (fun i => b (j + i)) i hi
  have h32 : ∀ j i, i < 4 →
      bytes32 (UInt32.ofNat (le32 fun i => b (j + i))).toNat i = b (j + i) := by
    intro j i hi
    rw [UInt32.toNat_ofNat_of_lt' (le32_lt _)]
    exact bytes32_le32 (fun i => b (j + i)) i hi
  interval_cases k
  all_goals first
    | rfl
    | exact h16 14 _ (by omega)
    | exact h16 16 _ (by omega)
    | exact h16 18 _ (by omega)
    | exact h16 20 _ (by omega)
    | exact h16 22 _ (by omega)
    | exact h16 24 _ (by omega)
    | exact h16 26 _ (by omega)
    | exact h32 28 _ (by omega)

theorem ofBytes_congr (a b : Nat → UInt8) (h : ∀ k < 32, a k = b k) :
    FatDirectoryItem.ofBytes a = FatDirectoryItem.ofBytes b := by
  have h16 : ∀ j, j + 2 ≤ 32 → le16 (fun i => a (j + i)) = le16 fun i => b (j + i) :=
    fun j hj => le16_congr _ _ (h _ (by omega)) (h _ (by omega))
  have h32 : le32 (fun i => a (28 + i)) = le32 fun i => b (28 + i) :=
    le32_congr _ _ (fun i hi => h _ (by omega))
  unfold FatDirectoryItem.ofBytes
  simp only [h16 14 (by omega), h16 16 (by omega), h16 18 (by omega), h16 20 (by omega),
    h16 22 (by omega), h16 24 (by omega), h16 26 (by omega), h32, h 11 (by omega), h 12 (by omega),
    h 13 (by omega), FatDirectoryItem.mk.injEq, and_true]
  refine ⟨?_, ?_⟩
  · funext i
    exact h i (by omega)
  · funext i
    exact h (8 + i) (by omega)

/-! ## Splices outside a region -/

theorem cell_outside (s : Nat → Sector) (pos n : Nat) (inp : Nat → UInt8) (a : Nat)
    (h : a < pos ∨ pos + n ≤ a) : cellAt (spliced s pos n inp) a = cellAt s a := by
  rw [cellAt_spliced, if_neg (by omega)]

theorem cell_inside (s : Nat → Sector) (pos n : Nat) (inp : Nat → UInt8) (i : Nat) (h : i < n) :
    cellAt (spliced s pos n inp) (pos + i) = inp i := by
  rw [cellAt_spliced, if_pos (by omega), Nat.add_sub_cancel_left]

theorem le16_written (s : Nat → Sector) (pos v : Nat) (hv : v < 65536) :
    (le16 fun i => cellAt (spliced s pos 2 (bytes16 v)) (pos + i)) = v := by
  rw [le16_congr (fun i => cellAt (spliced s pos 2 (bytes16 v)) (pos + i)) (bytes16 v)
    (cell_inside s pos 2 _ 0 (by omega)) (cell_inside s pos 2 _ 1 (by omega)), le16_bytes16 v hv]

theorem le16_spliced (s : Nat → Sector) (base c x v : Nat) (hv : v < 65536) :
    (le16 fun i => cellAt (spliced s (base + 2 * c) 2 (bytes16 v)) (base + 2 * x + i)) =
      if x = c then v else le16 fun i => cellAt s (base + 2 * x + i) := by
  by_cases hx : x = c
  · subst hx
    rw [if_pos rfl]
    exact le16_written s _ v hv
  · rw [if_neg hx]
    apply le16_congr
    · exact cell_outside s _ 2 _ _ (by omega)
    · exact cell_outside s _ 2 _ _ (by omega)

variable (L : Layout) (s : Nat → Sector) (pos n : Nat) (inp : Nat → UInt8)

theorem fat_of_outside (h : pos + n ≤ L.fatPos ∨ L.mirrorPos ≤ pos) :
    (L.view (spliced s pos n inp)).fat = (L.view s).fat := by
  funext c
  simp only [Layout.view]
  by_cases hc : c < L.entries
  · unfold Layout.entries Layout.fatPos Layout.mirrorPos at *
    rw [if_pos hc, if_pos hc]
    apply le16_congr <;> exact cell_outside s pos n inp _ (by omega)
  · rw [if_neg hc, if_neg hc]

theorem mirror_of_outside (h : pos + n ≤ L.mirrorPos ∨ L.rootPos ≤ pos) :
    (L.view (spliced s pos n inp)).mirror = (L.view s).mirror := by
  funext c
  simp only [Layout.view]
  by_cases hc : c < L.entries
  · unfold Layout.entries Layout.rootPos Layout.mirrorPos at *
    rw [if_pos hc, if_pos hc]
    apply le16_congr <;> exact cell_outside s pos n inp _ (by omega)
  · rw [if_neg hc, if_neg hc]

theorem dir_of_outside (h : pos + n ≤ L.rootPos ∨ L.dataPos ≤ pos) :
    (L.view (spliced s pos n inp)).dir = (L.view s).dir := by
  funext i
  simp only [Layout.view]
  by_cases hi : i < L.rde
  · unfold Layout.dataPos at h
    rw [if_pos hi, if_pos hi]
    apply ofBytes_congr
    intro k hk
    exact cell_outside s pos n inp _ (by omega)
  · rw [if_neg hi, if_neg hi]

theorem data_of_outside (h : pos + n ≤ L.dataPos) :
    (L.view (spliced s pos n inp)).data = (L.view s).data := by
  funext c o
  simp only [Layout.view]
  rw [cell_outside s pos n inp _ (by unfold Layout.clusterPos; omega)]

/-! ## Splices inside a region -/

theorem view_splice_fat (c v : Nat) (hc : c < L.entries) (hv : v < 65536) :
    L.view (spliced s (L.fatPos + 2 * c) 2 (bytes16 v)) = (L.view s).setFat c v := by
  have hp : L.fatPos + 2 * c + 2 ≤ L.mirrorPos ∧ L.mirrorPos ≤ L.rootPos ∧ L.rootPos ≤ L.dataPos := by
    unfold Layout.entries at hc
    unfold Layout.fatPos Layout.mirrorPos Layout.dataPos Layout.rootPos
    omega
  ext1
  · funext x
    simp only [View.setFat_fat, Layout.view, le16_spliced s L.fatPos c x v hv]
    by_cases hx : x = c
    · simp [hx, hc]
    · simp [hx]
  · exact mirror_of_outside L s _ 2 _ (by omega)
  · exact dir_of_outside L s _ 2 _ (by omega)
  · exact data_of_outside L s _ 2 _ (by omega)

theorem view_splice_mirror (c v : Nat) (hc : c < L.entries) (hv : v < 65536) :
    L.view (spliced s (L.mirrorPos + 2 * c) 2 (bytes16 v)) = (L.view s).setMirror c v := by
  have hp : L.mirrorPos + 2 * c + 2 ≤ L.rootPos ∧ L.rootPos ≤ L.dataPos := by
    unfold Layout.entries at hc
    unfold Layout.mirrorPos Layout.dataPos Layout.rootPos
    omega
  ext1
  · exact fat_of_outside L s _ 2 _ (by omega)
  · funext x
    simp only [View.setMirror_mirror, Layout.view, le16_spliced s L.mirrorPos c x v hv]
    by_cases hx : x = c
    · simp [hx, hc]
    · simp [hx]
  · exact dir_of_outside L s _ 2 _ (by omega)
  · exact data_of_outside L s _ 2 _ (by omega)

theorem view_splice_dir (i : Nat) (it : FatDirectoryItem) (hi : i < L.rde) :
    L.view (spliced s (L.rootPos + 32 * i) 32 it.byte) = (L.view s).setDir i it := by
  have hp : L.rootPos + 32 * i + 32 ≤ L.dataPos ∧ L.mirrorPos ≤ L.rootPos := by
    unfold Layout.dataPos Layout.mirrorPos Layout.rootPos
    omega
  ext1
  · exact fat_of_outside L s _ 32 _ (by omega)
  · exact mirror_of_outside L s _ 32 _ (by omega)
  · funext x
    rw [View.setDir_dir]
    by_cases hx : x = i
    · subst hx
      rw [if_pos rfl]
      simp only [Layout.view, if_pos hi]
      conv_rhs => rw [← ofBytes_byte it]
      apply ofBytes_congr
      intro k hk
      exact cell_inside s _ 32 _ k hk
    · rw [if_neg hx]
      simp only [Layout.view]
      congr 1
      apply ofBytes_congr
      intro k hk
      exact cell_outside s _ 32 _ _ (by omega)
  · exact data_of_outside L s _ 32 _ (by omega)

theorem clusterPos_apart (x c : Nat) (h : x < c) (hx : 2 ≤ x) :
    L.clusterPos x + L.clusterSize ≤ L.clusterPos c := by
  have hm := Nat.mul_le_mul_right L.clusterSize (show x - 2 + 1 ≤ c - 2 by omega)
  rw [Nat.succ_mul] at hm
  unfold Layout.clusterPos
  omega

theorem view_splice_data (c off : Nat) (hc : L.InRange c) (ho : off + n ≤ L.clusterSize) :
    L.view (spliced s (L.clusterPos c + off) n inp) = (L.view s).setData c off n inp := by
  have hp : L.dataPos ≤ L.clusterPos c + off ∧ L.mirrorPos ≤ L.rootPos ∧ L.rootPos ≤ L.dataPos := by
    unfold Layout.clusterPos Layout.dataPos Layout.mirrorPos Layout.rootPos
    omega
  ext1
  · exact fat_of_outside L s _ n _ (by omega)
  · exact mirror_of_outside L s _ n _ (by omega)
  · exact dir_of_outside L s _ n _ (by omega)
  · funext x o
    simp only [Layout.view, View.setData]
    by_cases hin : L.InRange x ∧ o < L.clusterSize
    · rw [if_pos hin, if_pos hin, cellAt_spliced]
      by_cases hx : x = c
      · subst hx
        by_cases ho' : off ≤ o ∧ o < off + n
        · rw [if_pos (by omega), if_pos ⟨rfl, ho'⟩]
          congr 1
          omega
        · rw [if_neg (by omega), if_neg (fun h => ho' h.2)]
      · -- Another cluster: its bytes are all before or all after the splice.
        have hcx := hc.1
        have hxx := hin.1.1
        have hout : ¬ (L.clusterPos c + off ≤ L.clusterPos x + o ∧
            L.clusterPos x + o < L.clusterPos c + off + n) := by
          rcases Nat.lt_or_gt_of_ne hx with hlt | hgt
          · have := clusterPos_apart L x c hlt hxx
            omega
          · have := clusterPos_apart L c x hgt hcx
            omega
        rw [if_neg hout, if_neg (fun h => hx h.1)]
    · rw [if_neg hin, if_neg hin, if_neg]
      rintro ⟨rfl, h⟩
      exact hin ⟨hc, by omega⟩

end PeachOS.Fat
