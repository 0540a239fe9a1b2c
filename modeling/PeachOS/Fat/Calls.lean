import PeachOS.Fat.Mount
import PeachOS.Spec.Calls

/-!
# The position of an open file

`fat16_seek` compares the offset with the size of the file, and not the position that it sets. A write moves the
position to its end, and the size of the file with it.
-/

open PeachOS.Lib

namespace PeachOS.Fat

variable {s : FileSession}

/-! ## Seeks -/

theorem seek_rejected (desc : FatFileDescriptor) (offset : Nat) (mode : SeekMode)
    (h : ¬ (desc.item.type = .file ∧ offset < desc.item.item.filesize.toNat)) :
    (fat16_seek desc offset mode).2 = desc ∧ (fat16_seek desc offset mode).1 ≠ 0 := by
  unfold fat16_seek
  by_cases ht : desc.item.type = .file
  · have hoff : offset ≥ desc.item.item.filesize.toNat := by
      by_contra hlt
      exact h ⟨ht, by omega⟩
    simp [ht, hoff, EIO]
  · simp [ht, EINVARG]

theorem seek_accepted (desc : FatFileDescriptor) (offset : Nat) (mode : SeekMode) (ht : desc.item.type = .file)
    (hoff : offset < desc.item.item.filesize.toNat) : fat16_seek desc offset mode = match mode with
      | .set => (0, { desc with pos := offset })
      | .end_ => (-EUNIMP, desc)
      | .cur => (0, { desc with pos := u32 (desc.pos + offset) })
      | .other => (-EINVARG, desc) := by
  unfold fat16_seek
  refine (if_neg (fun hne => hne ht)).trans ((if_neg (by omega)).trans ?_)
  cases mode <;> rfl

theorem seek_item (desc : FatFileDescriptor) (offset : Nat) (mode : SeekMode) :
    (fat16_seek desc offset mode).2.item = desc.item := by
  by_cases h : desc.item.type = .file ∧ offset < desc.item.item.filesize.toNat
  · rw [seek_accepted desc offset mode h.1 h.2]
    cases mode <;> rfl
  · rw [(seek_rejected desc offset mode h).1]

theorem seek_failed (desc : FatFileDescriptor) (offset : Nat) (mode : SeekMode)
    (h : (fat16_seek desc offset mode).1 ≠ 0) : (fat16_seek desc offset mode).2 = desc := by
  by_cases hacc : desc.item.type = .file ∧ offset < desc.item.item.filesize.toNat
  · rw [seek_accepted desc offset mode hacc.1 hacc.2] at h ⊢
    cases mode <;> simp_all
  · exact (seek_rejected desc offset mode hacc).1

/-! ## Writes -/

theorem grown_covers (item : FatDirectoryItem) (f pos n : Nat) :
    u32 ((pos : Int) + n) ≤ (fat16_grown_item item f pos n).filesize.toNat := by
  have hlt := u32_lt ((pos : Int) + n)
  unfold fat16_grown_item
  dsimp only
  -- the first cluster does not matter for the size
  generalize hit : (if item.low_16_bits_first_cluster = 0 ∧ f ≠ 0 then _ else item) = it
  split
  · dsimp only
    rw [UInt32.toNat_ofNat', Nat.mod_eq_of_lt hlt]
  · omega

theorem write_desc (v : Volume) (desc : FatFileDescriptor) (size nmemb : Nat) (buf : Nat → UInt8)
    (r : Int × Nat × Disk) (hr : fat16_write_internal v.priv v.disk (fat16_get_first_cluster desc.item.item) desc.pos
      buf (u32 (size * nmemb)) = r) :
    (fat16_write v desc size nmemb buf).2.2 = if r.1 < 0 then desc else
      { desc with
        item := { desc.item with item := fat16_grown_item desc.item.item r.2.1 desc.pos r.1.toNat }
        pos := u32 (desc.pos + r.1) } := by
  simp only [fat16_write, hr]
  split
  · rfl
  · split <;> rfl

theorem write_inside (v : Volume) (desc : FatFileDescriptor) (size nmemb : Nat) (buf : Nat → UInt8)
    (h : desc.pos ≤ desc.item.item.filesize.toNat) :
    (fat16_write v desc size nmemb buf).2.2.pos ≤
      (fat16_write v desc size nmemb buf).2.2.item.item.filesize.toNat := by
  obtain ⟨r, hr⟩ : ∃ r, fat16_write_internal v.priv v.disk (fat16_get_first_cluster desc.item.item) desc.pos buf
    (u32 (size * nmemb)) = r := ⟨_, rfl⟩
  rw [write_desc v desc size nmemb buf r hr]
  split
  · exact h
  · rename_i hge
    dsimp only
    have hcover := grown_covers desc.item.item r.2.1 desc.pos r.1.toNat
    rwa [Int.toNat_of_nonneg (by omega)] at hcover

theorem seek_inside (s : FileSession) (offset : UInt32) (mode : SeekMode) (h : s.desc.pos ≤ s.size)
    (hin : s.SeeksInside (.seek offset mode)) :
    (fat16_seek s.desc offset.toNat mode).2.pos ≤ s.size := by
  by_cases hacc : s.desc.item.type = .file ∧ offset.toNat < s.desc.item.item.filesize.toNat
  · rw [seek_accepted s.desc _ mode hacc.1 hacc.2]
    cases mode with
    | set => exact Nat.le_of_lt hacc.2
    | end_ => exact h
    | other => exact h
    | cur =>
      have hsum := hin hacc.1 hacc.2
      have := s.desc.item.item.filesize.toNat_lt
      unfold FileSession.size at hsum ⊢
      dsimp only
      rw [← Int.natCast_add, u32_natCast, Nat.mod_eq_of_lt (by omega)]
      exact hsum
  · rw [(seek_rejected s.desc _ mode hacc).1]
    exact h

theorem keepsPosition (s : FileSession) (c : FileCall) (h : s.desc.pos ≤ s.size) (hin : s.SeeksInside c) :
    s.KeepsPosition c := by
  cases c with
  | read size nmemb => exact ⟨h, by rintro _ _ ⟨⟩, by rintro _ ⟨⟩⟩
  | write size nmemb buf => exact ⟨write_inside _ _ _ _ _ h, by rintro _ _ ⟨⟩, by rintro _ ⟨⟩⟩
  | seek offset mode =>
    refine ⟨?_, ?_, ?_⟩
    · show (fat16_seek s.desc offset.toNat mode).2.pos ≤
          (fat16_seek s.desc offset.toNat mode).2.item.item.filesize.toNat
      rw [seek_item]
      exact seek_inside s offset mode h hin
    · rintro _ _ ⟨⟩ hne
      show (fat16_seek s.desc offset.toNat mode).2.pos = s.desc.pos
      rw [seek_failed s.desc _ mode hne]
    · rintro _ ⟨⟩ hres
      have hacc : s.desc.item.type = .file ∧ offset.toNat < s.desc.item.item.filesize.toNat := by
        by_contra hrej
        exact (seek_rejected s.desc _ .cur hrej).2 hres
      have hsum := hin hacc.1 hacc.2
      have := s.desc.item.item.filesize.toNat_lt
      unfold FileSession.size at hsum
      omega

/-- A relative seek over the end of the file is accepted: it leaves the file, or it wraps. -/
theorem leaves_file (s : FileSession) (c : FileCall) (hout : ¬ s.SeeksInside c) : ¬ s.KeepsPosition c := by
  intro hk
  cases c with
  | read size nmemb => exact hout trivial
  | write size nmemb buf => exact hout trivial
  | seek offset mode =>
    cases mode with
    | set => exact hout trivial
    | end_ => exact hout trivial
    | other => exact hout trivial
    | cur =>
      apply hout
      intro ht hoff
      have hseek := seek_accepted s.desc offset.toNat .cur ht hoff
      have hwrap := hk.unwrapped offset rfl (by rw [hseek])
      have hin : (fat16_seek s.desc offset.toNat .cur).2.pos ≤
        (fat16_seek s.desc offset.toNat .cur).2.item.item.filesize.toNat := hk.inside
      rw [seek_item, hseek] at hin
      dsimp only at hin
      rw [← Int.natCast_add, u32_natCast, Nat.mod_eq_of_lt hwrap] at hin
      exact hin

/-- The position stays inside the file exactly if no relative seek of the run leaves it. -/
theorem position_kept_iff (s : FileSession) (h : s.desc.pos ≤ s.size) (calls : List FileCall) :
    Along FileSession.step FileSession.KeepsPosition calls s ↔
      Along FileSession.step FileSession.SeeksInside calls s := by
  refine along_iff (fun s => s.desc.pos ≤ s.size) (fun _ _ => True) _ _ ?_ ?_ calls s ?_ h
  · intro s c hs _ hin
    have hk := keepsPosition s c hs hin
    exact ⟨hk.inside, hk⟩
  · exact fun s c _ _ hout => leaves_file s c hout
  · exact along_of_forall (fun _ => True) calls (fun _ _ => trivial) s

/-- The file `A` of three bytes. -/
def sampleA : FileSession := ⟨sample, ⟨⟨.file, sampleEntry, none⟩, 0, -1⟩⟩

theorem sampleA_kept : Along FileSession.step FileSession.KeepsPosition [.seek 2 .set, .seek 1 .cur] sampleA :=
  (position_kept_iff sampleA (by decide) [.seek 2 .set, .seek 1 .cur]).mpr
    ⟨trivial, fun _ _ => by decide, trivial⟩

/-- Two seeks inside the file lead out of it. -/
theorem sampleA_leaves : ([.seek 2 .set, .seek 2 .cur].foldl FileSession.step sampleA).desc.pos = 4 ∧
    sampleA.size = 3 ∧ ¬ Along FileSession.step FileSession.KeepsPosition [.seek 2 .set, .seek 2 .cur] sampleA := by
  refine ⟨by decide, by decide, fun h => ?_⟩
  exact absurd h.2.1.inside (by decide)

end PeachOS.Fat
