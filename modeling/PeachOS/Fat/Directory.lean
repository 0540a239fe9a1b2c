import PeachOS.Fat.Count
import PeachOS.Fat.Names
import PeachOS.Fat.Mount
import PeachOS.Fat.System
import PeachOS.Fat.Volume

/-!
# The three traversals of the root directory

`fat16_readdir` and the slot lookup stop at the first never-used slot. The read lookup takes the first
`total` slots, and `total` is how many entries were not deleted when the volume was mounted. The three
see the same files as long as the entries in use come first.
-/

open PeachOS.Lib PeachOS.Streamer

namespace PeachOS

/-- What the traversals have to agree on. A buffer of 13 bytes has room for every 8.3 name. -/
structure TraversalsAgree (p : FatPrivate) : Prop where
  listed : ∀ (index : Int) (buf nm : Nat → UInt8) (buf_size : Nat), 13 ≤ buf_size →
    fat16_readdir p index buf buf_size = (1, nm) → ∃ i : Nat,
      fat16_readdir_loop p index p.header.root_dir_entries.toNat 0 0 = some i ∧
      fat16_find_root_dir_slot_by_name p nm = i ∧
      fat16_find_item_loop p.root_directory nm p.root_directory.total.toNat 0 none = some i ∧
      ∀ (d : Disk) (kzalloc : FatMemory), (∀ j < 3, kzalloc j = true) →
        fat16_open ⟨d, p⟩ nm [] .read kzalloc = (⟨d, p⟩, .ok
          { item := { type := .file, item := p.root_directory.item i, directory := none }
            pos := 0
            root_dir_slot := -1 })
  found : ∀ name kzalloc, (fat16_find_item_in_directory p.root_directory name kzalloc).isSome →
    0 ≤ fat16_find_root_dir_slot_by_name p name

/-- Where the boot sector says that the root directory starts. -/
def rootStart (p : FatPrivate) : Nat :=
  (p.header.fat_copies.toNat * p.header.sectors_per_fat.toNat + p.header.reserved_sectors.toNat) * 512

/-- Slot `i` of a directory at `pos`, as it is on disk. -/
def dirSlot (d : Disk) (pos i : Nat) : FatDirectoryItem :=
  FatDirectoryItem.ofBytes fun k => cellAt d.sector (pos + 32 * i + k)

/-- A directory of `rde` slots at `pos` whose entries in use are its first `m` slots. One of the slots
after them, or what is on disk behind the directory, starts with a zero byte and ends the count. -/
structure PackedImage (d : Disk) (pos rde m : Nat) : Prop where
  le : m ≤ rde
  live : ∀ i < m, Live (dirSlot d pos i)
  free : ∀ i, m ≤ i → i < rde → FreeSlot (dirSlot d pos i)
  ends : ∃ t, m ≤ t ∧ t ≤ rde ∧ (dirSlot d pos t).filename 0 = 0x00
  distinct : ∀ i < m, ∀ j < m,
    SameName (fat16_tmp_filename (dirSlot d pos i)) (fat16_tmp_filename (dirSlot d pos j)) → i = j
  below : pos + 32 * rde + 32 ≤ 0x80000000

/-- The names in a call are 8.3 names. -/
def Call.Named83 : Call → Prop
  | .open_ part _ _ => Name83 part
  | .delete part => Name83 part
  | _ => True

/-- The call is no `fat16_delete`, or no entry has the name. -/
def DeletesNothing (s : Sys) : Call → Prop
  | .delete part => ∀ i < s.vol.priv.header.root_dir_entries.toNat,
      Live (s.vol.priv.root_directory.item i) → ¬ Matches (s.vol.priv.root_directory.item i) part
  | _ => True

instance (it : FatDirectoryItem) : Decidable (FreeSlot it) := inferInstanceAs (Decidable (_ ∨ _))

namespace Fat

variable {p : FatPrivate} {t : Nat}

/-! ## The loops -/

theorem fat16_find_item_loop_spec (dir : FatDirectory) (name : Nat → UInt8) (n i : Nat)
    (found : Option Nat) :
    (∃ j, fat16_find_item_loop dir name n i found = some j ∧ i ≤ j ∧ j < i + n ∧
      Matches (dir.item j) name) ∨
    (fat16_find_item_loop dir name n i found = found ∧
      ∀ j, i ≤ j → j < i + n → ¬ Matches (dir.item j) name) := by
  induction n generalizing i found with
  | zero => exact Or.inr ⟨rfl, fun j h1 h2 => by omega⟩
  | succ n ih =>
    rw [fat16_find_item_loop]
    by_cases hm : istrncmp (fat16_tmp_filename (dir.item i)) name 108 = 0
    · rw [if_pos hm]
      rcases ih (i + 1) (some i) with ⟨j, heq, h1, h2, hj⟩ | ⟨heq, -⟩
      · exact Or.inl ⟨j, heq, by omega, by omega, hj⟩
      · exact Or.inl ⟨i, heq, Nat.le_refl i, by omega, hm⟩
    · rw [if_neg hm]
      rcases ih (i + 1) found with ⟨j, heq, h1, h2, hj⟩ | ⟨heq, hall⟩
      · exact Or.inl ⟨j, heq, by omega, by omega, hj⟩
      · refine Or.inr ⟨heq, fun j h1 h2 => ?_⟩
        rcases Nat.eq_or_lt_of_le h1 with rfl | h1
        · exact hm
        · exact hall j h1 (by omega)

theorem fat16_readdir_loop_some (index : Int) (n i : Nat) (count : Int) (j : Nat)
    (h : fat16_readdir_loop p index n i count = some j) :
    j < i + n ∧ ¬ FreeSlot (p.root_directory.item j) := by
  induction n generalizing i count with
  | zero => cases h
  | succ n ih =>
    rw [fat16_readdir_loop] at h
    split at h
    · cases h
    rename_i h0
    split at h
    · have := ih _ _ h
      exact ⟨by omega, this.2⟩
    rename_i h5
    split at h
    · have := ih _ _ h
      exact ⟨by omega, this.2⟩
    split at h
    · cases h
      exact ⟨by omega, fun hf => hf.elim h0 h5⟩
    · have := ih _ _ h
      exact ⟨by omega, this.2⟩

/-! ## Directories whose entries come first -/

/-- The invariant of the in-memory directory: the first `t` slots are in use, the others are free, and
the read lookup looks at the first `t` slots. -/
structure Packed (p : FatPrivate) (t : Nat) : Prop where
  total : p.root_directory.total = t
  le : t ≤ p.header.root_dir_entries.toNat
  live : ∀ i < t, Live (p.root_directory.item i)
  free : ∀ i, t ≤ i → i < p.header.root_dir_entries.toNat → FreeSlot (p.root_directory.item i)
  distinct : ∀ i < t, ∀ j < t, SameName (fat16_tmp_filename (p.root_directory.item i))
    (fat16_tmp_filename (p.root_directory.item j)) → i = j

theorem packed_lt (h : Packed p t) (i : Nat) (hi : i < p.header.root_dir_entries.toNat)
    (hlive : ¬ FreeSlot (p.root_directory.item i)) : i < t := by
  by_contra hge
  exact hlive (h.free i (by omega) hi)

theorem not_freeSlot_of_live (it : FatDirectoryItem) (h : Live it) : ¬ FreeSlot it := fun hf =>
  not_live_of_freeSlot it hf h

theorem packed_slot (h : Packed p t) (name : Nat → UInt8) :
    (∃ j : Nat, fat16_find_root_dir_slot_by_name p name = j ∧ j < t ∧
      Matches (p.root_directory.item j) name) ∨
    (fat16_find_root_dir_slot_by_name p name = -1 ∧
      ∀ j < t, ¬ Matches (p.root_directory.item j) name) := by
  unfold fat16_find_root_dir_slot_by_name
  have hle := h.le
  rcases fat16_find_root_dir_slot_loop_spec (p := p) name p.header.root_dir_entries.toNat 0 with
    ⟨j, heq, -, h2, hl, hn, -⟩ | ⟨heq, hall⟩
  · exact Or.inl ⟨j, heq, packed_lt h j (by omega) (not_freeSlot_of_live _ hl), hn⟩
  · refine Or.inr ⟨heq, fun j hj hm => ?_⟩
    exact hall j (Nat.zero_le j) (by omega) (fun k _ hk => (h.live k (by omega)).1) ⟨h.live j hj, hm⟩

theorem packed_slot_of_matches (h : Packed p t) (name : Nat → UInt8) (i : Nat) (hi : i < t)
    (hm : Matches (p.root_directory.item i) name) : fat16_find_root_dir_slot_by_name p name = i := by
  rcases packed_slot h name with ⟨j, heq, hj, hmj⟩ | ⟨-, hnone⟩
  · rw [matches_iff] at hm hmj
    rw [heq, h.distinct j hj i hi (sameName_trans _ _ _ hmj (sameName_symm _ _ hm))]
  · exact absurd hm (hnone i hi)

theorem packed_read (h : Packed p t) (name : Nat → UInt8) (i : Nat) (hi : i < t)
    (hm : Matches (p.root_directory.item i) name) :
    fat16_find_item_loop p.root_directory name p.root_directory.total.toNat 0 none = some i := by
  rw [h.total, Int.toNat_natCast]
  rcases fat16_find_item_loop_spec p.root_directory name t 0 none with ⟨j, heq, -, hj, hmj⟩ | ⟨-, hnone⟩
  · rw [matches_iff] at hm hmj
    rw [heq, h.distinct j (by omega) i hi (sameName_trans _ _ _ hmj (sameName_symm _ _ hm))]
  · exact absurd hm (hnone i (Nat.zero_le i) (by omega))

theorem fat16_open_read_found (d : Disk) (nm : Nat → UInt8) (i : Nat) (kzalloc : FatMemory)
    (hk : ∀ j < 3, kzalloc j = true)
    (h : fat16_find_item_loop p.root_directory nm p.root_directory.total.toNat 0 none = some i) :
    fat16_open ⟨d, p⟩ nm [] .read kzalloc = (⟨d, p⟩, .ok
      { item := { type := .file, item := p.root_directory.item i, directory := none }
        pos := 0
        root_dir_slot := -1 }) := by
  simp only [fat16_open, fat16_open_read, hk 0 (by decide), hk 1 (by decide), hk 2 (by decide), Bool.not_true,
    Bool.false_eq_true, if_false, if_true, fat16_get_directory_entry, fat16_find_item_in_directory, h,
    Option.bind_some, fat16_new_fat_item_for_directory_item, fat16_clone_directory_item,
    fat16_get_directory_entry_loop]

theorem traversalsAgree_of_packed (h : Packed p t) : TraversalsAgree p := by
  constructor
  · intro index buf nm buf_size hsize hread
    unfold fat16_readdir at hread
    split at hread
    · rename_i i hi
      rw [Prod.mk.injEq] at hread
      obtain ⟨hlt, hused⟩ := fat16_readdir_loop_some index _ 0 0 i hi
      have hit := packed_lt h i (by omega) hused
      have hm : Matches (p.root_directory.item i) nm := by
        rw [matches_iff, ← hread.2]
        exact sameName_listed _ buf buf_size hsize
      have hfind := packed_read h nm i hit hm
      exact ⟨i, hi, packed_slot_of_matches h nm i hit hm, hfind, fun d kzalloc hk =>
        fat16_open_read_found d nm i kzalloc hk hfind⟩
    · rw [Prod.mk.injEq] at hread
      omega
  · intro name kzalloc hsome
    unfold fat16_find_item_in_directory at hsome
    rw [h.total, Int.toNat_natCast] at hsome
    rcases fat16_find_item_loop_spec p.root_directory name t 0 none with ⟨j, -, -, hj, hm⟩ | ⟨heq, -⟩
    · rw [packed_slot_of_matches h name j (by omega) hm]
      omega
    · rw [heq] at hsome
      cases hsome

/-! ## One call -/

/-- The fields of an entry that the traversals look at. -/
def SameEntry (it it' : FatDirectoryItem) : Prop :=
  it'.filename = it.filename ∧ it'.ext = it.ext ∧ it'.attr = it.attr

/-- The descriptor has a slot in use, and its copy of the entry has the name that is there. -/
def Copies (p : FatPrivate) (t : Nat) (desc : FatFileDescriptor) : Prop :=
  ∃ j : Nat, desc.root_dir_slot = j ∧ j < t ∧ SameEntry (p.root_directory.item j) desc.item.item

/-- From `p` to `p'` the entries in use stay where they are. -/
def Keeps (p : FatPrivate) (t : Nat) (p' : FatPrivate) (t' : Nat) : Prop :=
  t ≤ t' ∧ ∀ i < t, SameEntry (p.root_directory.item i) (p'.root_directory.item i)

theorem keeps_refl (p : FatPrivate) (t : Nat) : Keeps p t p t :=
  ⟨Nat.le_refl t, fun _ _ => ⟨rfl, rfl, rfl⟩⟩

theorem copies_keeps {p' : FatPrivate} {t' : Nat} (hk : Keeps p t p' t') (desc : FatFileDescriptor)
    (h : Copies p t desc) : Copies p' t' desc := by
  obtain ⟨j, hslot, hj, h1, h2, h3⟩ := h
  obtain ⟨k1, k2, k3⟩ := hk.2 j hj
  have := hk.1
  exact ⟨j, hslot, by omega, h1.trans k1.symm, h2.trans k2.symm, h3.trans k3.symm⟩

theorem live_congr (it it' : FatDirectoryItem) (h : SameEntry it it') : Live it' ↔ Live it := by
  unfold Live
  rw [h.1, h.2.2]

theorem packed_setItem (h : Packed p t) (i : Nat) (it : FatDirectoryItem)
    (hit : SameEntry (p.root_directory.item i) it) :
    Packed (p.setItem i it) t ∧ Keeps p t (p.setItem i it) t := by
  have hkeep : ∀ j, SameEntry (p.root_directory.item j) ((p.setItem i it).root_directory.item j) := by
    intro j
    by_cases hji : j = i
    · rw [show (p.setItem i it).root_directory.item j = it from if_pos hji, hji]
      exact hit
    · rw [show (p.setItem i it).root_directory.item j = p.root_directory.item j from if_neg hji]
      exact ⟨rfl, rfl, rfl⟩
  have hname := fun j => tmp_filename_congr _ _ (hkeep j).1 (hkeep j).2.1
  refine ⟨⟨h.total, h.le, fun j hj => (live_congr _ _ (hkeep j)).mpr (h.live j hj), fun j h1 h2 => ?_,
    fun j hj k hk hs => h.distinct j hj k hk ?_⟩, Nat.le_refl t, fun j _ => hkeep j⟩
  · unfold FreeSlot
    rw [(hkeep j).1]
    exact h.free j h1 h2
  · rw [hname, hname] at hs
    exact hs

theorem fat16_open_create_priv (v : Volume) (ht : v.priv.root_directory.total = t) (name : Nat → UInt8) :
    (fat16_open_create v t name).priv =
      { header := v.priv.header
        root_directory := { (v.priv.setItem t (fat16_new_entry name)).root_directory with
          total := t + 1 } } := by
  unfold fat16_open_create
  dsimp only
  rw [if_pos (show (t : Int) ≥ (fat16_store_entry v t (fat16_new_entry name)).priv.root_directory.total
    from ht.le)]
  rfl

theorem packed_create (v : Volume) (h : Packed v.priv t)
    (hlt : t < v.priv.header.root_dir_entries.toNat) (name : Nat → UInt8) (hn : Name83 name)
    (hnew : ∀ j < t, ¬ Matches (v.priv.root_directory.item j) name) :
    Packed (fat16_open_create v t name).priv (t + 1) ∧
      Keeps v.priv t (fat16_open_create v t name).priv (t + 1) ∧
      (fat16_open_create v t name).priv.root_directory.item t = fat16_new_entry name := by
  rw [fat16_open_create_priv v h.total name]
  have hitem : ∀ j, (v.priv.setItem t (fat16_new_entry name)).root_directory.item j =
      if j = t then fat16_new_entry name else v.priv.root_directory.item j := fun j => rfl
  have hself := (matches_iff _ _).mp (matches_new name hn)
  -- An entry with the same name as the new one would have been found.
  have hother : ∀ j < t, ¬ SameName (fat16_tmp_filename (v.priv.root_directory.item j))
      (fat16_tmp_filename (fat16_new_entry name)) := fun j hj hs =>
    hnew j hj ((matches_iff _ _).mpr (sameName_trans _ _ _ hs hself))
  refine ⟨⟨rfl, hlt, fun j hj => ?_, fun j h1 h2 => ?_, fun j hj k hk hs => ?_⟩,
    ⟨by omega, fun j hj => ?_⟩, if_pos rfl⟩
  · simp only [hitem]
    split
    · exact live_new name hn
    · exact h.live j (by omega)
  · simp only [hitem, if_neg (show ¬ j = t by omega)]
    exact h.free j (by omega) h2
  · simp only [hitem] at hs
    split at hs
    · split at hs
      · omega
      · exact absurd (sameName_symm _ _ hs) (hother k (by omega))
    · split at hs
      · exact absurd hs (hother j (by omega))
      · exact h.distinct j (by omega) k (by omega) hs
  · simp only [hitem, if_neg (show ¬ j = t by omega)]
    exact ⟨rfl, rfl, rfl⟩

theorem packed_free (h : Packed p t) :
    (t < p.header.root_dir_entries.toNat ∧ fat16_find_free_root_dir_slot p = t) ∨
      fat16_find_free_root_dir_slot p = -ENOMEM := by
  unfold fat16_find_free_root_dir_slot
  have hle := h.le
  rcases fat16_find_free_root_dir_slot_loop_spec (p := p) p.header.root_dir_entries.toNat 0 with
    ⟨j, heq, -, hj, hfree, hbefore⟩ | ⟨heq, -⟩
  · have hge : t ≤ j := by
      by_contra hlt
      exact not_freeSlot_of_live _ (h.live j (by omega)) hfree
    rcases Nat.eq_or_lt_of_le hge with rfl | hlt
    · exact Or.inl ⟨by omega, heq⟩
    · exact absurd (h.free t (Nat.le_refl t) (by omega)) (hbefore t (Nat.zero_le t) hlt)
  · exact Or.inr heq

theorem packed_open (v : Volume) (h : Packed v.priv t) (name : Nat → UInt8) (hn : Name83 name)
    (kzalloc : FatMemory) (v' : Volume) (res : Except Int FatFileDescriptor)
    (heq : fat16_open_write v name kzalloc = (v', res)) :
    ∃ t', Packed v'.priv t' ∧ Keeps v.priv t v'.priv t' ∧
      ∀ desc, res = .ok desc → Copies v'.priv t' desc := by
  have hdesc : ∀ (w : Volume) (i t' : Nat) (desc : FatFileDescriptor), i < t' →
      fat16_open_descriptor w i kzalloc = .ok desc → Copies w.priv t' desc := by
    intro w i t' desc hi hd
    have hop := fat16_open_descriptor_spec i kzalloc desc hd
    exact ⟨i, hop.slot, hi, by rw [hop.item]; exact ⟨rfl, rfl, rfl⟩⟩
  rcases packed_slot h name with ⟨i, hfind, hi, -⟩ | ⟨hfind, hnew⟩
  · rw [fat16_open_write_found name kzalloc i hfind, Prod.mk.injEq] at heq
    obtain ⟨rfl, rfl⟩ := heq
    obtain ⟨hp, hk⟩ := packed_setItem h i (emptied (v.priv.root_directory.item i)) ⟨rfl, rfl, rfl⟩
    exact ⟨t, hp, hk, fun desc hd => hdesc _ i t desc hi hd⟩
  · rcases packed_free h with ⟨hlt, hfree⟩ | hfree
    · rw [fat16_open_write_new name kzalloc t hfind hfree, Prod.mk.injEq] at heq
      obtain ⟨rfl, rfl⟩ := heq
      obtain ⟨hp, hk, -⟩ := packed_create v h hlt name hn hnew
      exact ⟨t + 1, hp, hk, fun desc hd => hdesc _ t (t + 1) desc (by omega) hd⟩
    · rw [fat16_open_write_full name kzalloc hfind hfree, Prod.mk.injEq] at heq
      obtain ⟨rfl, rfl⟩ := heq
      exact ⟨t, h, keeps_refl _ t, fun desc hd => by cases hd⟩

theorem fat16_write_priv (v : Volume) (desc : FatFileDescriptor) (slot : Nat)
    (hslot : desc.root_dir_slot = slot) (size nmemb : Nat) (buf : Nat → UInt8) (v' : Volume)
    (desc' : FatFileDescriptor) (r : Int) (h : fat16_write v desc size nmemb buf = (r, v', desc')) :
    (v'.priv = v.priv ∧ desc' = desc) ∨
      (SameEntry desc.item.item desc'.item.item ∧ v'.priv = v.priv.setItem slot desc'.item.item ∧
        desc'.root_dir_slot = slot) := by
  unfold fat16_write at h
  generalize fat16_write_internal v.priv v.disk (fat16_get_first_cluster desc.item.item) desc.pos buf
    (u32 (size * nmemb)) = w at h
  simp only [hslot, if_pos (show (slot : Int) ≥ 0 by omega), Int.toNat_natCast] at h
  split at h
  · rw [Prod.mk.injEq, Prod.mk.injEq] at h
    obtain ⟨-, rfl, rfl⟩ := h
    exact Or.inl ⟨rfl, rfl⟩
  · rw [Prod.mk.injEq, Prod.mk.injEq] at h
    obtain ⟨-, rfl, rfl⟩ := h
    exact Or.inr ⟨grown_name _ _ _ _, rfl, rfl⟩

theorem packed_write (v : Volume) (h : Packed v.priv t) (desc : FatFileDescriptor)
    (hd : Copies v.priv t desc) (size nmemb : Nat) (buf : Nat → UInt8) (v' : Volume)
    (desc' : FatFileDescriptor) (r : Int) (heq : fat16_write v desc size nmemb buf = (r, v', desc')) :
    Packed v'.priv t ∧ Keeps v.priv t v'.priv t ∧ Copies v'.priv t desc' := by
  have hd' := hd
  obtain ⟨slot, hslot, hlt, h1, h2, h3⟩ := hd
  rcases fat16_write_priv v desc slot hslot size nmemb buf v' desc' r heq with
    ⟨hp, rfl⟩ | ⟨⟨k1, k2, k3⟩, hp, hs⟩
  · rw [hp]
    exact ⟨h, keeps_refl _ t, hd'⟩
  · rw [hp]
    obtain ⟨hpack, hk⟩ := packed_setItem h slot desc'.item.item
      ⟨k1.trans h1, k2.trans h2, k3.trans h3⟩
    refine ⟨hpack, hk, slot, hs, hlt, ?_⟩
    rw [show (v.priv.setItem slot desc'.item.item).root_directory.item slot = desc'.item.item
      from if_pos rfl]
    exact ⟨rfl, rfl, rfl⟩

/-! ## Runs -/

/-- The invariant of a run: the directory is packed and every descriptor has the name of its slot. -/
def DirInv (s : Sys) : Prop :=
  ∃ t, Packed s.vol.priv t ∧ ∀ f, some f ∈ s.files → Copies s.vol.priv t f.desc

theorem dirInv_step (s : Sys) (c : Call) (h : DirInv s) (hc : c.Named83) (hdel : DeletesNothing s c) :
    DirInv (s.step c) := by
  obtain ⟨t, hp, hf⟩ := h
  cases c with
  | open_ part next kzalloc =>
    obtain ⟨v', res, heq⟩ : ∃ v' res, fat16_open_write s.vol part kzalloc = (v', res) := ⟨_, _, rfl⟩
    obtain ⟨t', hp', hk, hd⟩ := packed_open s.vol hp part hc kzalloc v' res heq
    simp only [Sys.step, fat16_open, heq]
    cases res with
    | error e => exact ⟨t', hp', fun f hm => copies_keeps hk _ (hf f hm)⟩
    | ok desc =>
      refine ⟨t', hp', fun f hm => ?_⟩
      rcases List.mem_append.mp hm with hm | hm
      · exact copies_keeps hk _ (hf f hm)
      · rw [List.mem_singleton, Option.some.injEq] at hm
        subst hm
        exact hd desc rfl
  | write fd size nmemb buf =>
    cases hfile : s.file fd with
    | none =>
      simp only [Sys.step, hfile]
      exact ⟨t, hp, hf⟩
    | some f =>
      obtain ⟨r, v', desc', heq⟩ : ∃ r v' desc', fat16_write s.vol f.desc size nmemb buf = (r, v', desc') :=
        ⟨_, _, _, rfl⟩
      obtain ⟨hp', hk, hd⟩ := packed_write s.vol hp f.desc (hf f (file_mem s fd f hfile)) size nmemb buf
        v' desc' r heq
      simp only [Sys.step, hfile, heq]
      refine ⟨t, hp', fun g hg => ?_⟩
      rcases List.mem_or_eq_of_mem_set hg with hg | hg
      · exact copies_keeps hk _ (hf g hg)
      · rw [Option.some.injEq] at hg
        subst hg
        exact hd
  | close fd =>
    refine ⟨t, hp, fun g hg => ?_⟩
    rcases List.mem_or_eq_of_mem_set hg with hg | hg
    · exact hf g hg
    · cases hg
  | delete part =>
    have hle := hp.le
    rcases packed_slot hp part with ⟨j, -, hj, hm⟩ | ⟨hfind, -⟩
    · exact absurd hm (hdel j (by omega) (hp.live j hj))
    · simp only [Sys.step, fat16_delete_missing part hfind]
      exact ⟨t, hp, hf⟩

/-- After a file is deleted, the read lookup finds its slot under the name that the deleted entry has,
and the slot lookup does not. -/
theorem delete_breaks (s : Sys) (c : Call) (h : DirInv s) (hdel : ¬ DeletesNothing s c) :
    ¬ TraversalsAgree (s.step c).vol.priv := by
  obtain ⟨t, hp, -⟩ := h
  cases c with
  | open_ => exact absurd trivial hdel
  | write => exact absurd trivial hdel
  | close => exact absurd trivial hdel
  | delete part =>
    simp only [DeletesNothing, not_forall, Decidable.not_not] at hdel
    obtain ⟨i, hi, hlive, hm⟩ := hdel
    have hit := packed_lt hp i hi (not_freeSlot_of_live _ hlive)
    have hfind := packed_slot_of_matches hp part i hit hm
    set gone := deleted (s.vol.priv.root_directory.item i) with hgone
    have hpriv : (s.step (.delete part)).vol.priv = s.vol.priv.setItem i gone := by
      simp only [Sys.step, fat16_delete_found part i hfind]
      rfl
    rw [hpriv]
    intro hagree
    have hitem : (s.vol.priv.setItem i gone).root_directory.item i = gone := if_pos rfl
    have htotal : (s.vol.priv.setItem i gone).root_directory.total.toNat = t := by
      show s.vol.priv.root_directory.total.toNat = t
      rw [hp.total, Int.toNat_natCast]
    have hread : (fat16_find_item_in_directory (s.vol.priv.setItem i gone).root_directory
        (fat16_tmp_filename gone) .enough).isSome := by
      unfold fat16_find_item_in_directory
      rw [htotal]
      rcases fat16_find_item_loop_spec (s.vol.priv.setItem i gone).root_directory
        (fat16_tmp_filename gone) t 0 none with ⟨j, heq, -⟩ | ⟨-, hnone⟩
      · rw [heq]
        rfl
      · refine absurd ?_ (hnone i (Nat.zero_le i) (by omega))
        rw [hitem, matches_iff]
        exact sameName_refl _
    have hslot := hagree.found _ _ hread
    unfold fat16_find_root_dir_slot_by_name at hslot
    rcases fat16_find_root_dir_slot_loop_spec (p := s.vol.priv.setItem i gone)
      (fat16_tmp_filename gone) (s.vol.priv.setItem i gone).header.root_dir_entries.toNat 0 with
      ⟨j, -, -, -, hl, hmj, -⟩ | ⟨heq, -⟩
    · exact not_matches_deleted _ gone hl.2.1 rfl hmj
    · omega

/-! ## Mounting a packed directory -/

section Mount

variable {d : Disk} {pos m : Nat}

theorem slotFirst_dirSlot (hpos : pos % 512 = 0) (i : Nat) (h : pos + 32 * i + 32 ≤ 0x80000000) :
    slotFirst d pos i = (dirSlot d pos i).filename 0 :=
  slotFirst_cell pos i (by omega) h

theorem packed_mount (fuel : Nat) (alloc : Bool) (mem : Nat → UInt8) (v : Volume)
    (h : fat16_resolve fuel d alloc mem = some (.ok v))
    (himg : PackedImage d (rootStart v.priv) v.priv.header.root_dir_entries.toNat m) :
    Packed v.priv m := by
  obtain ⟨-, hroot⟩ := fat16_resolve_cases fuel d alloc mem v h
  obtain ⟨sector, size, hsector, hsize, htotal, -, -, hitem⟩ :=
    fat16_get_root_directory_cases fuel d _ alloc mem _ hroot
  set rde := v.priv.header.root_dir_entries.toNat
  have hbelow := himg.below
  have hexact : (rootStart v.priv : Nat) = sector * 512 := by
    unfold rootStart
    omega
  have hstart : i32 (sector * 512) = (rootStart v.priv : Nat) := by
    rw [← hexact, i32_of_lt _ (by omega) (by omega)]
  have hmod : rootStart v.priv % 512 = 0 := by
    unfold rootStart
    omega
  generalize rootStart v.priv = pos at *
  have hslots : ∀ i < rde, v.priv.root_directory.item i = dirSlot d pos i := by
    intro i hi
    have hsz : size = ((32 * rde : Nat) : Int) := by omega
    rw [hitem, hstart, hsz, diskstreamer_read_spec d pos mem (32 * rde) (by omega) (Or.inl hmod)]
    refine ofBytes_congr _ _ fun k hk => ?_
    show readAt d.sector pos (32 * rde) mem (32 * i + k) = _
    rw [readAt, if_pos (by omega), Nat.add_assoc]
  have hcount : v.priv.root_directory.total = m := by
    classical
    have hex := himg.ends
    obtain ⟨h1, h2, h3⟩ := Nat.find_spec hex
    have hmin := fun i => Nat.find_min hex (m := i)
    generalize Nat.find hex = t at *
    have hfirst : ∀ i ≤ t, slotFirst d pos i = (dirSlot d pos i).filename 0 := fun i hi =>
      slotFirst_dirSlot hmod i (by omega)
    refine total_items_eq sector fuel m t _ hexact htotal h1 ?_ ?_ (by rw [hfirst t (Nat.le_refl t)]; exact h3)
    · intro j hj
      rw [hfirst j (by omega)]
      exact ⟨(himg.live j hj).1, (himg.live j hj).2.1⟩
    · intro j hmj hjt
      rw [hfirst j (by omega)]
      exact (himg.free j hmj (by omega)).resolve_left fun h0 => hmin j hjt ⟨hmj, by omega, h0⟩
  have hle := himg.le
  refine ⟨hcount, hle, fun i hi => ?_, fun i h1 h2 => ?_, fun i hi j hj hs => ?_⟩
  · rw [hslots i (by omega)]
    exact himg.live i hi
  · rw [hslots i h2]
    exact himg.free i h1 h2
  · rw [hslots i (by omega), hslots j (by omega)] at hs
    exact himg.distinct i hi j hj hs

end Mount

/-- On a directory that was mounted with its entries in front, the traversals agree in every state of a
run if and only if no call deletes a file. -/
theorem traversals_agree_iff (fuel : Nat) (d : Disk) (alloc : Bool) (mem : Nat → UInt8) (v : Volume)
    (hmount : fat16_resolve fuel d alloc mem = some (.ok v)) (m : Nat)
    (himg : PackedImage d (rootStart v.priv) v.priv.header.root_dir_entries.toNat m)
    (calls : List Call) (hnames : ∀ c ∈ calls, c.Named83) :
    (∀ n, TraversalsAgree ((calls.take n).foldl Sys.step (Sys.start v)).vol.priv) ↔
      Along Sys.step DeletesNothing calls (Sys.start v) := by
  have hstart : DirInv (Sys.start v) :=
    ⟨m, packed_mount fuel alloc mem v hmount himg, fun f hf => by cases hf⟩
  have hagree : ∀ s, DirInv s → TraversalsAgree s.vol.priv := fun _ ⟨_, hp, _⟩ =>
    traversalsAgree_of_packed hp
  refine (along_states (fun s : Sys => TraversalsAgree s.vol.priv) calls _
    (hagree _ hstart)).symm.trans ?_
  refine along_iff DirInv (fun _ c => c.Named83) _ _ (fun s c h hc hdel => ?_)
    (fun s c h _ => delete_breaks s c h) calls _ (along_of_forall _ calls hnames _) hstart
  have hnext := dirInv_step s c h hc hdel
  exact ⟨hnext, hagree _ hnext⟩

theorem sample_root_facts : sample.priv.header.root_dir_entries.toNat = 16 ∧ rootStart sample.priv = 1536 ∧
    (∀ i < 1, Live (dirSlot sampleDisk 1536 i)) ∧ (dirSlot sampleDisk 1536 1).filename 0 = 0x00 ∧
    ∀ i < 16, 1 ≤ i → (dirSlot sampleDisk 1536 i).filename 0 = 0x00 ∨
      (dirSlot sampleDisk 1536 i).filename 0 = 0xE5 := by
  decide +kernel

theorem sample_packed : PackedImage sampleDisk (rootStart sample.priv)
    sample.priv.header.root_dir_entries.toNat 1 := by
  obtain ⟨hrde, hpos, hlive, hend, hfree⟩ := sample_root_facts
  rw [hrde, hpos]
  exact ⟨by decide, hlive, fun i h1 h2 => hfree i h2 h1, ⟨1, by decide, by decide, hend⟩,
    fun i hi j hj _ => by omega, by decide⟩

def sampleCalls : List Call :=
  [.open_ (cstr [66]) [] .enough, .write 0 1 600 (fun _ => 3), .close 0,
    .delete (cstr [66, 66])]

theorem sampleCalls_missing : ∀ i < 16,
    Live (((sampleCalls.take 3).foldl Sys.step (Sys.start sample)).vol.priv.root_directory.item i) →
    ¬ Matches (((sampleCalls.take 3).foldl Sys.step (Sys.start sample)).vol.priv.root_directory.item i)
      (cstr [66, 66]) := by
  decide +kernel

theorem sample_traversals :
    TraversalsAgree ((sampleCalls.take 4).foldl Sys.step (Sys.start sample)).vol.priv :=
  (traversals_agree_iff 3 sampleDisk true (fun _ => 0) sample sample_mounts 1 sample_packed sampleCalls
    (by
      have hB : Name83 (cstr [66]) :=
        ⟨1, 0, by decide, by decide, by decide, by decide, by decide, Or.inl (by decide)⟩
      have hBB : Name83 (cstr [66, 66]) :=
        ⟨2, 0, by decide, by decide, by decide, by decide, by decide, Or.inl (by decide)⟩
      simp only [sampleCalls, List.forall_mem_cons]
      exact ⟨hB, trivial, trivial, hBB, fun c hc => by cases hc⟩)).mpr
    ⟨trivial, trivial, trivial, sampleCalls_missing, trivial⟩ 4

end Fat

/-- The small disk with its file in slot 1, after a deleted entry in slot 0. -/
def gapDisk : Disk where
  sector i j :=
    if i = 3 then
      (if (j : Nat) < 32 then (Fat.deleted sampleEntry).byte j
      else if (j : Nat) < 64 then sampleEntry.byte (j - 32) else 0)
    else sampleDisk.sector i j
  writes := []
  stack := fun _ => 0

namespace Fat

/-- The file in slot 1 is listed, and the read lookup does not find it. -/
theorem gap_disagrees : ∃ v, fat16_resolve 3 gapDisk true (fun _ => 0) = some (.ok v) ∧
    (fat16_readdir v.priv 0 (fun _ => 0) 13).1 = 1 ∧
    fat16_find_item_loop v.priv.root_directory (fat16_readdir v.priv 0 (fun _ => 0) 13).2
      v.priv.root_directory.total.toNat 0 none = none ∧ ¬ TraversalsAgree v.priv := by
  have h : mountsWith (fun v => (fat16_readdir v.priv 0 (fun _ => 0) 13).1 = 1 ∧
      fat16_find_item_loop v.priv.root_directory (fat16_readdir v.priv 0 (fun _ => 0) 13).2
        v.priv.root_directory.total.toNat 0 none = none) (fat16_resolve 3 gapDisk true fun _ => 0) = true := by
    decide +kernel
  obtain ⟨v, hv, hfacts⟩ := mountsWith_some _ h
  obtain ⟨hlist, hfind⟩ := of_decide_eq_true hfacts
  refine ⟨v, hv, hlist, hfind, fun hagree => ?_⟩
  obtain ⟨i, -, -, hi, -⟩ := hagree.listed 0 (fun _ => 0) _ 13 (by decide) (Prod.ext hlist rfl)
  rw [hfind] at hi
  cases hi

end Fat

end PeachOS
