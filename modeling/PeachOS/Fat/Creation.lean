import PeachOS.Fat.ShortNames
import PeachOS.Spec.Creation
import PeachOS.Fat.Mount
import PeachOS.Fat.Volume

/-!
# Created files and their names

The lookup compares the name that was asked for with the name that the fields of an entry show.
-/

namespace PeachOS.Fat

/-! ## Names that come back -/

theorem tolower_eq_iff (c x : UInt8) (hx : x < 65) : tolower c = x ↔ c = x := by
  have hup : fat16_upper x = x := (upper_eq_iff x x hx).mpr rfl
  constructor
  · intro h
    rw [← upper_eq_iff c x hx, ← upper_tolower, h, hup]
  · rintro rfl
    unfold tolower
    rw [if_neg]
    rw [UInt8.le_iff_toNat_le]
    rw [UInt8.lt_iff_toNat_lt] at hx
    simp at hx ⊢
    omega

theorem cstr_eq_zero (l : List UInt8) (h0 : 0 ∉ l) (i : Nat) : cstr l i = 0 ↔ l.length ≤ i := by
  constructor
  · intro h
    by_contra hlt
    unfold cstr at h
    rw [List.getD_eq_getElem _ _ (by omega)] at h
    exact h0 (h ▸ List.getElem_mem _)
  · exact cstr_length l i

theorem tolower_cstr (l : List UInt8) (i : Nat) : tolower (cstr l i) = cstr (l.map tolower) i := by
  unfold cstr
  rcases Nat.lt_or_ge i l.length with h | h
  · rw [List.getD_eq_getElem _ _ h, List.getD_eq_getElem _ _ (by simpa using h), List.getElem_map]
  · rw [List.getD_eq_default _ _ h, List.getD_eq_default _ _ (by simpa using h)]
    rfl

theorem sameName_text (a : Nat → UInt8) (l m : List UInt8) (ha : ∀ i < 108, a i = cstr l i) (hl : 0 ∉ l) (hm : 0 ∉ m)
    (hll : l.length < 108) : SameName a (cstr m) ↔ SameLetters l m := by
  constructor
  · intro h
    have heq : ∀ k ≤ l.length, tolower (cstr l k) = tolower (cstr m k) := by
      intro k hk
      have := h k (by omega) fun j hj => by
        rw [ha j (by omega)]
        exact fun h0 => absurd ((cstr_eq_zero l hl j).mp h0) (by omega)
      rwa [ha k (by omega)] at this
    have hlen : l.length = m.length := by
      apply Nat.le_antisymm
      · by_contra hgt
        have := heq m.length (by omega)
        rw [cstr_length m _ (Nat.le_refl _)] at this
        exact absurd ((cstr_eq_zero l hl _).mp (tolower_eq_zero _ this)) (by omega)
      · have := heq l.length (Nat.le_refl _)
        rw [cstr_length l _ (Nat.le_refl _)] at this
        exact (cstr_eq_zero m hm _).mp (tolower_eq_zero _ this.symm)
    apply List.ext_getElem
    · simpa using hlen
    · intro i h1 h2
      have := heq i (by simp at h1; omega)
      rw [tolower_cstr, tolower_cstr] at this
      unfold cstr at this
      rwa [List.getD_eq_getElem _ _ h1, List.getD_eq_getElem _ _ h2] at this
  · intro h k hk _
    rw [ha k hk, tolower_cstr, tolower_cstr, h]

/-- The text that the fields of a new entry show. -/
def shownText (text : List UInt8) : List UInt8 :=
  joinName ((base83 text).takeWhile inField) ((ext83 text).takeWhile inField)

theorem ext83_length (text : List UInt8) : (ext83 text).length ≤ 3 := List.length_take_le _ _

theorem entryName_new_text (text : List UInt8) (h0 : 0 ∉ text) :
    entryName (fat16_new_entry (cstr text)) = (shownText text).map fat16_upper := by
  obtain ⟨-, -, hlen, -⟩ := base83_spec text
  have hfields := name_to_83_text (cstr text) text (holdsText_cstr text) h0
  refine entryName_padded _ (base83 text) (ext83 text) hlen (ext83_length text) ?_ ?_
  · show (fat16_name_to_83 (cstr text)).1 = _
    rw [hfields]
  · show (fat16_name_to_83 (cstr text)).2 = _
    rw [hfields]

theorem takeWhile_no_nul (l : List UInt8) : ∀ c ∈ l.takeWhile inField, c ≠ 0 := by
  intro c hc
  exact ((inField_iff c).mp (List.mem_takeWhile_imp hc)).1

theorem matches_new_iff_letters (text : List UInt8) (h0 : 0 ∉ text) :
    Matches (fat16_new_entry (cstr text)) (cstr text) ↔ SameLetters (shownText text) text := by
  have hnul : 0 ∉ (shownText text).map fat16_upper := by
    intro h
    obtain ⟨c, hc, heq⟩ := List.mem_map.mp h
    obtain rfl := (upper_eq_iff c 0 (by decide)).mp heq
    exact inField_joinName _ _ (takeWhile_no_nul _) (takeWhile_no_nul _) hc
  have hlen := entryName_length (fat16_new_entry (cstr text))
  have hname := entryName_new_text text h0
  rw [matches_iff, sameName_text _ ((shownText text).map fat16_upper) text _ hnul h0 (by rw [← hname]; omega),
    sameLetters_iff, sameLetters_iff, List.map_map]
  · have hcomp : fat16_upper ∘ fat16_upper = fat16_upper := by
      funext c
      show fat16_upper (fat16_upper c) = fat16_upper c
      rw [← upper_tolower (fat16_upper c), tolower_upper, upper_tolower]
    rw [hcomp]
  · intro i hi
    unfold fat16_tmp_filename
    rw [fat16_get_full_relative_filename_spec _ _ _ _ hi, hname]

theorem sameLetters_append (l m n : List UInt8) : SameLetters (l ++ m) (l ++ n) ↔ SameLetters m n := by
  unfold SameLetters
  rw [List.map_append, List.map_append, List.append_cancel_left_eq]

theorem sameLetters_nil (l : List UInt8) (h : SameLetters [] l) : l = [] := by
  simpa [SameLetters] using h.symm

theorem sameLetters_cons (c d : UInt8) (l m : List UInt8) (h : SameLetters (c :: l) (d :: m)) :
    tolower c = tolower d ∧ SameLetters l m := by
  simpa [SameLetters] using h

theorem takeWhile_stops (l : List UInt8) (h0 : 0 ∉ l) :
    l.takeWhile inField = l ∨ ∃ rest, l = l.takeWhile inField ++ 0x20 :: rest := by
  induction l with
  | nil => exact Or.inl rfl
  | cons c l ih =>
    by_cases hc : inField c
    · rw [List.takeWhile_cons_of_pos hc]
      rcases ih fun h => h0 (by simp [h]) with heq | ⟨rest, heq⟩
      · exact Or.inl (by rw [heq])
      · exact Or.inr ⟨rest, by rw [List.cons_append, ← heq]⟩
    · right
      have hspace : c = 0x20 := by
        by_contra hne
        exact hc ((inField_iff c).mpr ⟨fun h => h0 (by simp [h]), hne⟩)
      rw [List.takeWhile_cons_of_neg hc, hspace]
      exact ⟨l, rfl⟩

theorem shownText_iff (text : List UInt8) (hne : text ≠ []) (h0 : 0 ∉ text) :
    SameLetters (shownText text) text ↔ FitsShort text := by
  constructor
  · intro h
    obtain ⟨rest, hsplit, hlen, hdot, -⟩ := base83_spec text
    have hext := ext83_eq text _ rest rfl hsplit
    unfold shownText at h
    generalize base83 text = base at *
    have hbase0 : 0 ∉ base := fun hin => h0 (by rw [hsplit]; simp [hin])
    rcases takeWhile_stops base hbase0 with hall | ⟨after, hspace⟩
    · -- The base has no space. The rest is compared with the dot and the extension.
      have hchars : ∀ c ∈ base, c ≠ 0x2E ∧ c ≠ 0x20 := by
        intro c hc
        rw [← hall] at hc
        exact ⟨hdot c (hall ▸ hc), ((inField_iff c).mp (List.mem_takeWhile_imp hc)).2⟩
      rw [hall, hsplit] at h
      unfold joinName at h
      rw [sameLetters_append] at h
      refine ⟨hne, ?_⟩
      by_cases hnone : (ext83 text).takeWhile inField = []
      · rw [← hsplit, if_pos hnone] at h
        obtain rfl := sameLetters_nil rest h
        exact ⟨base, [], by rw [hsplit]; simp [joinName], hlen, by simp, hchars, by simp⟩
      · rw [← hsplit, if_neg hnone] at h
        rcases rest with _ | ⟨c, rest⟩
        · simp [SameLetters] at h
        obtain ⟨hc, hrest⟩ := sameLetters_cons _ _ _ _ h
        obtain rfl : c = 0x2E := (tolower_eq_iff c 0x2E (by decide)).mp hc.symm
        have hlength : ((ext83 text).takeWhile inField).length = rest.length := by
          simpa using congrArg List.length hrest
        have htake : ext83 text = rest.take 3 := by
          rw [hext]
          simp
        have hle : rest.length ≤ 3 := by
          have := (List.takeWhile_prefix inField (l := ext83 text)).length_le
          have := ext83_length text
          omega
        rw [List.take_of_length_le hle] at htake
        rw [htake] at hlength hnone
        have hself : rest.takeWhile inField = rest := (List.takeWhile_prefix inField).eq_of_length hlength
        rw [hself] at hnone
        refine ⟨base, rest, by rw [hsplit]; simp [joinName, hnone], hlen, hle, hchars, fun c hc => ?_⟩
        rw [← hself] at hc
        exact ((inField_iff c).mp (List.mem_takeWhile_imp hc)).2
    · -- At the space the fields show a dot or nothing.
      exfalso
      rw [hsplit] at h
      conv at h => rhs; rw [hspace]
      unfold joinName at h
      rw [List.append_assoc, sameLetters_append] at h
      split at h
      · exact absurd (sameLetters_nil _ h) (by simp)
      · exact absurd (sameLetters_cons _ _ _ _ h).1 (by decide)
  · rintro ⟨-, base, ext, rfl, hb, he, hbase, hext⟩
    obtain ⟨h8, h3⟩ := joinName_83 base ext hb (fun c hc => (hbase c hc).1) he
    have h0b : ∀ c ∈ base, c ≠ 0 := by
      rintro c hc rfl
      exact h0 (by simp [joinName, hc])
    have h0e : ∀ c ∈ ext, c ≠ 0 := by
      rintro c hc rfl
      refine h0 ?_
      unfold joinName
      rw [if_neg (List.ne_nil_of_mem hc)]
      simp [hc]
    unfold shownText
    rw [h8, h3, takeWhile_all base (fun c hc => ⟨(hbase c hc).2, h0b c hc⟩),
      takeWhile_all ext (fun c hc => ⟨hext c hc, h0e c hc⟩)]
    rfl

theorem live_new_iff (text : List UInt8) (hne : text ≠ []) (h0 : 0 ∉ text) :
    Live (fat16_new_entry (cstr text)) ↔ text.head? ≠ some 0xE5 := by
  have hfirst : (fat16_new_entry (cstr text)).filename 0 = ((base83 text).map fat16_upper).getD 0 0x20 := by
    show (fat16_name_to_83 (cstr text)).1 0 = _
    rw [name_to_83_text (cstr text) text (holdsText_cstr text) h0]
    rfl
  have hattr : (fat16_new_entry (cstr text)).attr ≠ 0x0F := show (0x20 : UInt8) ≠ 0x0F by decide
  unfold Live
  rw [hfirst]
  rcases text with _ | ⟨c, text⟩
  · exact absurd rfl hne
  have hc0 : c ≠ 0 := fun h => h0 (by simp [h])
  by_cases hc : c = 0x2E
  · subst hc
    have hbase : base83 (0x2E :: text) = [] := by simp [base83]
    rw [hbase]
    simp [hattr]
  · have hbase : ((base83 (c :: text)).map fat16_upper).getD 0 0x20 = fat16_upper c := by simp [base83, hc]
    rw [hbase]
    constructor
    · rintro ⟨-, h5, -⟩ h
      obtain rfl := Option.some.inj h
      exact h5 (by decide)
    · intro h
      refine ⟨upper_ne c 0 (by decide) hc0, upper_ne c 0xE5 (by decide) fun heq => h ?_, hattr⟩
      rw [heq]
      rfl

theorem new_entry_found_iff (text : List UInt8) (hne : text ≠ []) (h0 : 0 ∉ text) :
    Live (fat16_new_entry (cstr text)) ∧ Matches (fat16_new_entry (cstr text)) (cstr text) ↔ Findable text := by
  rw [live_new_iff text hne h0, matches_new_iff_letters text h0, shownText_iff text hne h0]
  exact and_comm

/-! ## The directory -/

section Directory

variable {v : Volume} {name : Nat → UInt8} {slot : Nat}

theorem creates_spec (h : Creates v.priv name slot) :
    slot < v.priv.header.root_dir_entries.toNat ∧ FreeSlot (v.priv.root_directory.item slot) ∧
      (∀ k < slot, ¬ FreeSlot (v.priv.root_directory.item k)) ∧
      ∀ j < v.priv.header.root_dir_entries.toNat,
        (∀ k ≤ j, (v.priv.root_directory.item k).filename 0 ≠ 0x00) →
          ¬ (Live (v.priv.root_directory.item j) ∧ Matches (v.priv.root_directory.item j) name) := by
  obtain ⟨hnone, hfree⟩ := h
  have hnames : NameSearch v.priv name 0 v.priv.header.root_dir_entries.toNat
      (fat16_find_root_dir_slot_by_name v.priv name) := fat16_find_root_dir_slot_loop_spec name _ 0
  rcases hnames with ⟨j, heq, -⟩ | ⟨-, hall⟩
  · omega
  unfold fat16_find_free_root_dir_slot at hfree
  rcases fat16_find_free_root_dir_slot_loop_spec (p := v.priv) v.priv.header.root_dir_entries.toNat 0 with
    ⟨j, heq, -, hj, hslot, hbefore⟩ | ⟨heq, -⟩
  · obtain rfl : j = slot := by omega
    exact ⟨by omega, hslot, fun k hk => hbefore k (Nat.zero_le k) hk,
      fun i hi hused => hall i (Nat.zero_le i) (by omega) fun k _ hk => hused k hk⟩
  · rw [heq] at hfree
    unfold ENOMEM at hfree
    omega

theorem open_write_creates (h : Creates v.priv name slot) (kzalloc : FatMemory) :
    (fat16_open_write v name kzalloc).1 = fat16_open_create v slot name := by
  unfold fat16_open_write
  dsimp only
  rw [if_neg (by have := h.1; omega), h.2, if_neg (by omega)]
  rfl

theorem created_slot_iff (h : Creates v.priv name slot) :
    fat16_find_root_dir_slot_by_name (fat16_open_create v slot name).priv name = slot ↔
      Live (fat16_new_entry name) ∧ Matches (fat16_new_entry name) name := by
  obtain ⟨hlt, -, hused, hnone⟩ := creates_spec h
  have hsearch : NameSearch (fat16_open_create v slot name).priv name 0 v.priv.header.root_dir_entries.toNat
      (fat16_find_root_dir_slot_by_name (fat16_open_create v slot name).priv name) := by
    unfold fat16_find_root_dir_slot_by_name
    rw [open_create_header]
    exact fat16_find_root_dir_slot_loop_spec name _ 0
  have hnew : (fat16_open_create v slot name).priv.root_directory.item slot = fat16_new_entry name := by
    rw [open_create_item, if_pos rfl]
  have hold :
      ∀ k < slot, (fat16_open_create v slot name).priv.root_directory.item k = v.priv.root_directory.item k := by
    intro k hk
    rw [open_create_item, if_neg (by omega)]
  have hused' : ∀ k < slot, (v.priv.root_directory.item k).filename 0 ≠ 0x00 := fun k hk h0 => hused k hk (Or.inl h0)
  constructor
  · intro hfound
    rcases hsearch with ⟨j, heq, -, -, hlive, hname, -⟩ | ⟨heq, -⟩
    · obtain rfl : j = slot := by omega
      rw [hnew] at hlive hname
      exact ⟨hlive, hname⟩
    · omega
  · rintro ⟨hlive, hname⟩
    rcases hsearch with ⟨j, heq, -, hj, hjlive, hjname, hbefore⟩ | ⟨-, hall⟩
    · rcases Nat.lt_trichotomy j slot with hlt' | rfl | hgt
      · rw [hold j hlt'] at hjlive hjname
        exact absurd ⟨hjlive, hjname⟩ (hnone j (by omega) fun k hk => hused' k (by omega))
      · exact heq
      · have := (hbefore slot (Nat.zero_le _) hgt).2
        rw [hnew] at this
        exact absurd ⟨hlive, hname⟩ this
    · refine absurd ?_ (hall slot (Nat.zero_le _) (by omega) fun k _ hk => ?_)
      · rw [hnew]
        exact ⟨hlive, hname⟩
      · rcases Nat.lt_or_eq_of_le hk with hk | rfl
        · rw [hold k hk]
          exact hused' k hk
        · rw [hnew]
          exact hlive.1

theorem foundAgain_of_found (h : fat16_find_root_dir_slot_by_name v.priv name = slot) : FoundAgain v name slot := by
  have hdelete := fat16_delete_found name slot h
  refine ⟨h, fun kzalloc i => ?_, by rw [hdelete], ?_, fun i hi => ?_⟩
  · rw [fat16_open_write_found name kzalloc slot h, recycle_item]
    rfl
  · rw [hdelete, recycle_item, if_pos rfl]
    rfl
  · rw [hdelete, recycle_item, if_neg hi]

end Directory

/-! ## Runs of opens -/

section Opens

variable {v : Volume}

/-- Both properties of the directory. -/
def Orderly (p : FatPrivate) : Prop := NoneBehindEnd p ∧ DistinctNames p

theorem open_write_cases (v : Volume) (name : Nat → UInt8) (kzalloc : FatMemory) :
    (∃ slot : Nat, (fat16_open_write v name kzalloc).1 =
        recycle v slot (emptied (v.priv.root_directory.item slot))) ∨
      (∃ slot, Creates v.priv name slot ∧ (fat16_open_write v name kzalloc).1 = fat16_open_create v slot name) ∨
      (fat16_open_write v name kzalloc).1 = v := by
  by_cases hfound : 0 ≤ fat16_find_root_dir_slot_by_name v.priv name
  · obtain ⟨slot, hslot⟩ := Int.eq_ofNat_of_zero_le hfound
    exact Or.inl ⟨slot, by rw [fat16_open_write_found name kzalloc slot hslot]⟩
  · right
    by_cases hfree : 0 ≤ fat16_find_free_root_dir_slot v.priv
    · obtain ⟨slot, hslot⟩ := Int.eq_ofNat_of_zero_le hfree
      have hcreates : Creates v.priv name slot := ⟨by omega, hslot⟩
      exact Or.inl ⟨slot, hcreates, open_write_creates hcreates kzalloc⟩
    · right
      unfold fat16_open_write
      dsimp only
      rw [if_neg (by omega), if_pos (by omega)]

theorem orderly_truncate (h : Orderly v.priv) (slot : Nat) :
    Orderly (recycle v slot (emptied (v.priv.root_directory.item slot))).priv := by
  obtain ⟨v', hv'⟩ : ∃ v', v' = recycle v slot (emptied (v.priv.root_directory.item slot)) := ⟨_, rfl⟩
  have hheader : v'.priv.header = v.priv.header := by
    rw [hv']
    rfl
  rw [← hv']
  have hitem : ∀ i, (v'.priv.root_directory.item i).filename = (v.priv.root_directory.item i).filename ∧
      (Live (v'.priv.root_directory.item i) ↔ Live (v.priv.root_directory.item i)) ∧
      entryName (v'.priv.root_directory.item i) = entryName (v.priv.root_directory.item i) := by
    intro i
    rw [hv', recycle_item]
    split
    · rename_i hi
      rw [hi]
      exact ⟨rfl, Iff.rfl, rfl⟩
    · exact ⟨rfl, Iff.rfl, rfl⟩
  constructor
  · intro i j hij hj h0
    rw [hheader] at hj
    rw [(hitem i).1] at h0
    rw [(hitem j).2.1]
    exact h.1 i j hij hj h0
  · intro i hi j hj hne hli hlj
    rw [hheader] at hi hj
    rw [(hitem i).2.1] at hli
    rw [(hitem j).2.1] at hlj
    rw [(hitem i).2.2, (hitem j).2.2]
    exact h.2 i hi j hj hne hli hlj

theorem matches_of_entryName (a b : FatDirectoryItem) (name : Nat → UInt8) (h : entryName a = entryName b)
    (ha : Matches a name) : Matches b name := by
  rw [matches_iff] at ha ⊢
  refine sameName_trans _ _ _ (fun k hk _ => ?_) ha
  unfold fat16_tmp_filename
  rw [fat16_get_full_relative_filename_spec _ _ _ _ hk, fat16_get_full_relative_filename_spec _ _ _ _ hk, h]

theorem orderly_create (h : Orderly v.priv) (name : Nat → UInt8) (slot : Nat) (hc : Creates v.priv name slot)
    (hlive : Live (fat16_new_entry name)) (hname : Matches (fat16_new_entry name) name) :
    Orderly (fat16_open_create v slot name).priv := by
  obtain ⟨-, -, hused, hnone⟩ := creates_spec hc
  -- No other live entry has the name.
  have hother : ∀ j < v.priv.header.root_dir_entries.toNat, Live (v.priv.root_directory.item j) →
      entryName (fat16_new_entry name) ≠ entryName (v.priv.root_directory.item j) := by
    intro j hj hlj heq
    refine hnone j hj (fun k hk h0 => ?_) ⟨hlj, matches_of_entryName _ _ name heq hname⟩
    rcases Nat.lt_or_eq_of_le hk with hk | rfl
    · exact h.1 k j hk hj h0 hlj
    · exact hlj.1 h0
  constructor
  · intro i j hij hj h0
    rw [open_create_header] at hj
    rw [open_create_item] at h0 ⊢
    split at h0
    · exact absurd h0 hlive.1
    · split
      · rename_i hjs
        exact absurd (Or.inl h0) (hused i (by omega))
      · exact h.1 i j hij hj h0
  · intro i hi j hj hne hli hlj
    rw [open_create_header] at hi hj
    rw [open_create_item] at hli hlj
    rw [open_create_item, open_create_item]
    split at hli
    · rename_i his
      rw [if_neg (by omega)] at hlj
      rw [if_pos his, if_neg (by omega)]
      exact hother j hj hlj
    · rename_i his
      rw [if_neg his]
      split at hlj
      · rename_i hjs
        rw [if_pos hjs]
        exact (hother i hi hli).symm
      · rename_i hjs
        rw [if_neg hjs]
        exact h.2 i hi j hj hne hli hlj

theorem orderly_open (h : Orderly v.priv) (text : List UInt8) (hpart : IsPart text) (hfind : Findable text)
    (kzalloc : FatMemory) : Orderly (fat16_open_write v (cstr text) kzalloc).1.priv := by
  rcases open_write_cases v (cstr text) kzalloc with ⟨slot, heq⟩ | ⟨slot, hc, heq⟩ | heq
  · rw [heq]
    exact orderly_truncate h slot
  · rw [heq]
    obtain ⟨hlive, hname⟩ := (new_entry_found_iff text hpart.ne_nil hpart.no_nul).mpr hfind
    exact orderly_create h _ slot hc hlive hname
  · rw [heq]
    exact h

theorem orderly_openAll (names : List (List UInt8 × FatMemory)) (h : Orderly v.priv)
    (hnames : ∀ name ∈ names, IsPart name.1 ∧ Findable name.1) : Orderly (openAll v names).priv := by
  induction names generalizing v with
  | nil => exact h
  | cons name names ih =>
    obtain ⟨hpart, hfind⟩ := hnames name (by simp)
    exact ih (orderly_open h name.1 hpart hfind name.2) fun n hn => hnames n (by simp [hn])

end Opens

/-- A created file is found again under its name exactly if the name fits the fields and does not start with the mark
of deleted entries. Opens of such names never give two live entries one name. -/
theorem created_found_iff (v : Volume) :
    (∀ (text : List UInt8) (slot : Nat) (kzalloc : FatMemory), IsPart text → Creates v.priv (cstr text) slot →
      (FoundAgain (fat16_open_write v (cstr text) kzalloc).1 (cstr text) slot ↔ Findable text)) ∧
    ∀ names : List (List UInt8 × FatMemory), NoneBehindEnd v.priv → DistinctNames v.priv →
      (∀ name ∈ names, IsPart name.1 ∧ Findable name.1) → DistinctNames (openAll v names).priv := by
  constructor
  · intro text slot kzalloc hpart hc
    rw [open_write_creates hc, ← new_entry_found_iff text hpart.ne_nil hpart.no_nul, ← created_slot_iff hc]
    exact ⟨fun h => h.found, foundAgain_of_found⟩
  · intro names hend hdistinct hnames
    exact (orderly_openAll names ⟨hend, hdistinct⟩ hnames).2

/-! ## A name that fits, and one that does not -/

/-- The name abcdefghi -/
def longName : List UInt8 := [97, 98, 99, 100, 101, 102, 103, 104, 105]

theorem isPart_of_lt (text : List UInt8) (h : text ≠ [] ∧ 0x2F ∉ text ∧ 0 ∉ text ∧ text.length ≤ 105) : IsPart text :=
  ⟨⟨h.1, h.2.1, h.2.2.1⟩, h.2.2.2⟩

theorem sample_searches : (fat16_find_root_dir_slot_by_name sample.priv (cstr [66]) < 0 ∧
      fat16_find_root_dir_slot_by_name sample.priv (cstr longName) < 0 ∧
      fat16_find_free_root_dir_slot sample.priv = 1) ∧
    (fat16_find_root_dir_slot_by_name (fat16_open_create sample 1 (cstr longName)).priv (cstr longName) < 0 ∧
      fat16_find_free_root_dir_slot (fat16_open_create sample 1 (cstr longName)).priv = 2) ∧
    sample.priv.header.root_dir_entries = 16 ∧ ∀ i < 16, Live (sample.priv.root_directory.item i) → i = 0 := by
  decide +kernel

theorem sample_orderly : Orderly sample.priv := by
  obtain ⟨-, -, hrde, honly⟩ := sample_searches
  have h16 : sample.priv.header.root_dir_entries.toNat = 16 := by rw [hrde]; rfl
  constructor
  · intro i j hij hj _ hlive
    have := honly j (by omega) hlive
    omega
  · intro i hi j hj hij hli hlj
    have h1 := honly i (by omega) hli
    have h2 := honly j (by omega) hlj
    omega

theorem sample_found_again : FoundAgain (fat16_open_write sample (cstr [66]) .enough).1 (cstr [66]) 1 ∧
    DistinctNames (openAll sample [([66], .enough)]).priv := by
  obtain ⟨⟨hB, -, hfree⟩, -⟩ := sample_searches
  have hpart : IsPart [66] := isPart_of_lt _ (by decide)
  have hfind : Findable [66] := ⟨⟨by simp, [66], [], rfl, by simp, by simp, by simp, by simp⟩, by simp⟩
  obtain ⟨hfound, hdistinct⟩ := created_found_iff sample
  refine ⟨(hfound [66] 1 .enough hpart ⟨hB, hfree⟩).mpr hfind,
    hdistinct [([66], .enough)] sample_orderly.1 sample_orderly.2 fun name hname => ?_⟩
  obtain rfl := List.mem_singleton.mp hname
  exact ⟨hpart, hfind⟩

/-- The long name is not found again, and opening it twice makes two entries of one name. -/
theorem longName_twice : IsPart longName ∧ Creates sample.priv (cstr longName) 1 ∧
    ¬ FoundAgain (fat16_open_write sample (cstr longName) .enough).1 (cstr longName) 1 ∧
    NoneBehindEnd sample.priv ∧ DistinctNames sample.priv ∧
    ¬ DistinctNames (openAll sample [(longName, .enough), (longName, .enough)]).priv := by
  obtain ⟨⟨-, hnone, hfree⟩, ⟨hnone', hfree'⟩, hrde, -⟩ := sample_searches
  have h16 : sample.priv.header.root_dir_entries.toNat = 16 := by rw [hrde]; rfl
  have hc : Creates sample.priv (cstr longName) 1 := ⟨hnone, hfree⟩
  have hc' : Creates (fat16_open_create sample 1 (cstr longName)).priv (cstr longName) 2 := ⟨hnone', hfree'⟩
  refine ⟨isPart_of_lt _ (by decide), hc, fun h => ?_, sample_orderly.1, sample_orderly.2, fun h => ?_⟩
  · rw [open_write_creates hc] at h
    have := h.found
    omega
  · have hall : openAll sample [(longName, .enough), (longName, .enough)] =
        fat16_open_create (fat16_open_create sample 1 (cstr longName)) 2 (cstr longName) := by
      show (fat16_open_write (fat16_open_write sample (cstr longName) .enough).1 (cstr longName) .enough).1 = _
      rw [open_write_creates hc, open_write_creates hc']
    have hlive : Live (fat16_new_entry (cstr longName)) := by decide
    have h1 : (openAll sample [(longName, .enough), (longName, .enough)]).priv.root_directory.item 1 =
        fat16_new_entry (cstr longName) := by
      rw [hall, open_create_item, if_neg (by decide), open_create_item, if_pos rfl]
    have h2 : (openAll sample [(longName, .enough), (longName, .enough)]).priv.root_directory.item 2 =
        fat16_new_entry (cstr longName) := by
      rw [hall, open_create_item, if_pos rfl]
    have hlen : (openAll sample [(longName, .enough), (longName, .enough)]).priv.header.root_dir_entries.toNat =
        16 := by
      rw [hall, open_create_header, open_create_header, h16]
    exact h 1 (by omega) 2 (by omega) (by decide) (by rw [h1]; exact hlive) (by rw [h2]; exact hlive) (by rw [h1, h2])

end PeachOS.Fat
