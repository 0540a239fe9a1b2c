import PeachOS.Fat.Freeing
import PeachOS.Spec.Entries

/-!
# FAT entry access is array access

Reading an entry is reading the array at an index. Writing one is an update of both arrays at that index, and
the arrays are apart.
-/

open PeachOS.Lib

namespace PeachOS.Fat

variable (p : FatPrivate)

/-! ## Positions -/

theorem fatEntries_lt (c : Nat) (hc : c < fatEntries p) : c < 2 ^ 24 := by
  have hs := p.header.sectors_per_fat.toNat_lt
  unfold fatEntries at hc
  omega

theorem entryPos_apart (c x : Nat) (hc : c < fatEntries p) : entryPos p 0 c + 2 ≤ entryPos p 1 x := by
  rw [entryPos_one]
  unfold fatEntries at hc
  unfold entryPos
  omega

/-! ## Splices of an array -/

theorem fatArray_splice (copy : Nat) (s : Nat → Sector) (c : Fin (fatEntries p)) (v : UInt16) :
    fatArray p copy (spliced s (entryPos p copy c) 2 (bytes16 v.toNat)) =
      Function.update (fatArray p copy s) c v.toNat := by
  funext x
  have hentry := le16_spliced s ((p.header.reserved_sectors.toNat + copy * p.header.sectors_per_fat.toNat) * 512) c x
    v.toNat v.toNat_lt
  rw [Function.update_apply]
  simp only [Fin.ext_iff]
  exact hentry

theorem fatArray_outside (copy : Nat) (s : Nat → Sector) (pos : Nat) (inp : Nat → UInt8)
    (h : ∀ x < fatEntries p, entryPos p copy x + 2 ≤ pos ∨ pos + 2 ≤ entryPos p copy x) :
    fatArray p copy (spliced s pos 2 inp) = fatArray p copy s := by
  funext x
  apply fatCopy_same
  intro i hi
  apply cell_outside
  have := h x x.isLt
  omega

/-! ## The driver's access -/

theorem fat16_get_fat_entry_array (d : Disk) (c : Fin (fatEntries p)) :
    fat16_get_fat_entry p d (c : Nat) = (fatArray p 0 d.sector c : Int) := by
  have hb := entryPos_below p 0 c (by omega) (fatEntries_lt p c c.isLt)
  rw [entryPos_zero] at hb
  rw [get_fat_entry_at p d c hb]
  simp only [fatArray, fatCopy, entryPos_zero]

theorem fat16_set_fat_entry_array (d : Disk) (c : Fin (fatEntries p)) (v : UInt16) :
    ∃ e, fat16_set_fat_entry p d (c : Nat) v.toNat = (0, e) ∧
      e.sector = spliced (spliced d.sector (entryPos p 0 c) 2 (bytes16 v.toNat)) (entryPos p 1 c) 2
        (bytes16 v.toNat) := by
  obtain ⟨e, w1, w2, heq, -, -, -, -, hs⟩ := set_fat_entry_at p d c v.toNat _ _ (entryPos_zero p c)
    (entryPos_one p c) (entryPos_below p 1 c (by omega) (fatEntries_lt p c c.isLt))
  exact ⟨e, heq, hs⟩

theorem fatArrays_spliced (s : Nat → Sector) (c : Fin (fatEntries p)) (v : UInt16) (copy : Nat) (h : copy < 2) :
    fatArray p copy (spliced (spliced s (entryPos p 0 c) 2 (bytes16 v.toNat)) (entryPos p 1 c) 2
      (bytes16 v.toNat)) = Function.update (fatArray p copy s) c v.toNat := by
  obtain rfl | rfl : copy = 0 ∨ copy = 1 := by omega
  · rw [fatArray_outside p 0 _ (entryPos p 1 c) _ ?_, fatArray_splice]
    intro x hx
    exact Or.inl (entryPos_apart p x c hx)
  · rw [fatArray_splice, fatArray_outside p 1 _ (entryPos p 0 c) _ ?_]
    intro x _
    exact Or.inr (entryPos_apart p c x c.isLt)

/-- Every access to an entry of the FAT is an access to the array, for every header and every disk. -/
theorem fat_access_is_array_access (d : Disk) :
    (∀ c : Fin (fatEntries p), fat16_get_fat_entry p d (c : Nat) = (fatArray p 0 d.sector c : Int)) ∧
    ∀ (c : Fin (fatEntries p)) (v : UInt16), AssignsEntry p d c v := by
  refine ⟨fat16_get_fat_entry_array p d, ?_⟩
  intro c v
  obtain ⟨e, heq, hs⟩ := fat16_set_fat_entry_array p d c v
  have hcopies : ∀ copy < 2, fatArray p copy e.sector = Function.update (fatArray p copy d.sector) c v.toNat := by
    intro copy hcopy
    rw [hs]
    exact fatArrays_spliced p d.sector c v copy hcopy
  refine ⟨by rw [heq], ?_, by rw [heq]; exact hcopies, ?_⟩
  · intro x
    rw [heq, fat16_get_fat_entry_array, fat16_get_fat_entry_array, hcopies 0 (by omega), Function.update_apply]
    split
    · rfl
    · rfl
  · intro a ha
    unfold InEntry at ha
    rw [heq, hs, cell_outside _ _ _ _ _ (by omega), cell_outside _ _ _ _ _ (by omega)]

theorem fat16_get_fat_entry_run (d : Disk) (l : List (Fin (fatEntries p) × UInt16)) (c : Fin (fatEntries p)) :
    fat16_get_fat_entry p (setEntries p d l) (c : Nat) = (assignAll (fatArray p 0 d.sector) l c : Int) := by
  unfold setEntries assignAll
  induction l generalizing d with
  | nil => exact fat16_get_fat_entry_array p d c
  | cons a l ih =>
    obtain ⟨e, heq, hs⟩ := fat16_set_fat_entry_array p d a.1 a.2
    have hstep := fatArrays_spliced p d.sector a.1 a.2 0 (by omega)
    rw [← hs] at hstep
    simp only [List.foldl_cons, heq, ih e, hstep]

end PeachOS.Fat
