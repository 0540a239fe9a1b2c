import PeachOS.Fat.Lookup
import Mathlib.Data.List.GetD

/-!
# Names

A directory entry has a name of at most twelve characters: the filename field up to its padding, and
after a dot the ext field up to its padding. Names are compared without case, up to the terminating NUL.
-/

namespace PeachOS

/-- A character of a field, not padding. -/
def inField (b : UInt8) : Bool := b ≠ 0x00 ∧ b ≠ 0x20

/-- The name of an entry, as text. -/
def entryName (it : FatDirectoryItem) : List UInt8 :=
  (List.ofFn it.filename).takeWhile inField ++
    if inField (it.ext 0) then 0x2E :: (List.ofFn it.ext).takeWhile inField else []

/-- Two strings of which `istrncmp` says that the first 108 characters are the same. -/
def SameName (a b : Nat → UInt8) : Prop :=
  ∀ k < 108, (∀ j < k, a j ≠ 0) → tolower (a k) = tolower (b k)

/-- A name that the 8.3 fields hold: up to eight characters, and after a dot up to three. The byte
0xE5 at the start of a filename field says that the entry is deleted. -/
def Name83 (name : Nat → UInt8) : Prop :=
  ∃ b e, 1 ≤ b ∧ b ≤ 8 ∧ e ≤ 3 ∧ name 0 ≠ 0xE5 ∧
    (∀ i < b, inField (name i) ∧ name i ≠ 0x2E) ∧
    ((name b = 0 ∧ e = 0) ∨ (name b = 0x2E ∧ 1 ≤ e ∧
      (∀ i < e, inField (name (b + 1 + i)) ∧ name (b + 1 + i) ≠ 0x2E) ∧ name (b + 1 + e) = 0))

namespace Fat

/-! ## Comparing -/

theorem tolower_eq_zero (c : UInt8) (h : tolower c = 0) : c = 0 := by
  unfold tolower at h
  split at h
  · rename_i hc
    rw [UInt8.le_iff_toNat_le, UInt8.le_iff_toNat_le] at hc
    have := congrArg UInt8.toNat h
    simp at this hc
    omega
  · exact h

theorem tolower_upper (c : UInt8) : tolower (fat16_upper c) = tolower c := by
  unfold tolower fat16_upper
  by_cases hc : 97 ≤ c ∧ c ≤ 122
  · rw [if_pos hc]
    rw [UInt8.le_iff_toNat_le, UInt8.le_iff_toNat_le] at hc
    have hsub : (c - 32).toNat = c.toNat - 32 := by
      rw [UInt8.toNat_sub_of_le _ _ (UInt8.le_iff_toNat_le.mpr (by simp at hc ⊢; omega))]
      rfl
    have h1 : 65 ≤ c - 32 ∧ c - 32 ≤ 90 := by
      rw [UInt8.le_iff_toNat_le, UInt8.le_iff_toNat_le, hsub]
      simp at hc ⊢
      omega
    have h2 : ¬ (65 ≤ c ∧ c ≤ 90) := by
      rw [UInt8.le_iff_toNat_le, UInt8.le_iff_toNat_le]
      simp at hc ⊢
      omega
    rw [if_pos h1, if_neg h2, UInt8.sub_add_cancel]
  · rw [if_neg hc]

theorem istrncmp_from_eq_zero (a b : Nat → UInt8) (n i : Nat) :
    istrncmp_from a b n i = 0 ↔
      ∀ k < n, (∀ j < k, a (i + j) ≠ 0) → tolower (a (i + k)) = tolower (b (i + k)) := by
  induction n generalizing i with
  | zero => simp [istrncmp_from]
  | succ n ih =>
    rw [istrncmp_from]
    by_cases hne : a i ≠ b i ∧ tolower (a i) ≠ tolower (b i)
    · rw [if_pos hne]
      refine ⟨fun h => absurd (UInt8.toNat_inj.mp (by omega)) hne.1, fun h => ?_⟩
      exact absurd (h 0 (by omega) (fun j hj => by omega)) hne.2
    rw [if_neg hne]
    have heq : tolower (a i) = tolower (b i) := by
      by_contra hl
      exact hne ⟨fun h => hl (by rw [h]), hl⟩
    by_cases h0 : a i = 0
    · rw [if_pos h0]
      refine ⟨fun _ k _ hk => ?_, fun _ => rfl⟩
      rcases k with _ | k
      · exact heq
      · exact absurd h0 (hk 0 (by omega))
    rw [if_neg h0, ih]
    constructor
    · intro h k hk hz
      rcases k with _ | k
      · exact heq
      · have := h k (by omega) (fun j hj => by
          have := hz (j + 1) (by omega)
          rwa [show i + (j + 1) = i + 1 + j by omega] at this)
        rwa [show i + (k + 1) = i + 1 + k by omega]
    · intro h k hk hz
      have := h (k + 1) (by omega) (fun j hj => by
        rcases j with _ | j
        · exact h0
        · rw [show i + (j + 1) = i + 1 + j by omega]
          exact hz j (by omega))
      rwa [show i + (k + 1) = i + 1 + k by omega] at this

theorem istrncmp_eq_zero (a b : Nat → UInt8) : istrncmp a b 108 = 0 ↔ SameName a b := by
  unfold istrncmp SameName
  rw [istrncmp_from_eq_zero]
  simp only [Nat.zero_add]

theorem matches_iff (it : FatDirectoryItem) (name : Nat → UInt8) :
    Matches it name ↔ SameName (fat16_tmp_filename it) name :=
  istrncmp_eq_zero _ _

theorem sameName_refl (a : Nat → UInt8) : SameName a a := fun _ _ _ => rfl

theorem sameName_nonzero (a b : Nat → UInt8) (h : SameName a b) (k : Nat) (hk : k ≤ 108)
    (hb : ∀ j < k, b j ≠ 0) : ∀ j < k, a j ≠ 0 := by
  intro j
  induction j using Nat.strong_induction_on with
  | _ j ih =>
    intro hj h0
    have heq := h j (by omega) (fun i hi => ih i hi (by omega))
    rw [h0] at heq
    exact hb j hj (tolower_eq_zero _ heq.symm)

theorem sameName_symm (a b : Nat → UInt8) (h : SameName a b) : SameName b a := fun k hk hb =>
  (h k hk (sameName_nonzero a b h k (by omega) hb)).symm

theorem sameName_trans (a b c : Nat → UInt8) (hab : SameName a b) (hbc : SameName b c) :
    SameName a c := by
  intro k hk ha
  have hb := sameName_nonzero b a (sameName_symm a b hab) k (by omega) ha
  rw [hab k hk ha, hbc k hk hb]

/-! ## The name of an entry -/

theorem length_takeWhile_ofFn (n : Nat) (f : Fin n → UInt8) :
    ((List.ofFn f).takeWhile inField).length ≤ n := by
  have := (List.takeWhile_prefix inField (l := List.ofFn f)).length_le
  rwa [List.length_ofFn] at this

theorem entryName_length (it : FatDirectoryItem) : (entryName it).length ≤ 12 := by
  have h8 := length_takeWhile_ofFn 8 it.filename
  have h3 := length_takeWhile_ofFn 3 it.ext
  unfold entryName
  rw [List.length_append]
  split
  · rw [List.length_cons]
    omega
  · rw [List.length_nil]
    omega

theorem fat16_to_proper_string_spec (l : List UInt8) (out : Nat → UInt8) (pos m : Nat)
    (hz : ∀ i, pos ≤ i → i < m → out i = 0) :
    (fat16_to_proper_string out pos l).2 = pos + (l.takeWhile inField).length ∧
      ∀ i < m, (fat16_to_proper_string out pos l).1 i =
        if i < pos then out i else cstr (l.takeWhile inField) (i - pos) := by
  induction l generalizing out pos with
  | nil =>
    refine ⟨rfl, fun i hi => ?_⟩
    show out i = _
    split
    · rfl
    · rw [hz i (by omega) hi]
      rfl
  | cons b rest ih =>
    rw [fat16_to_proper_string]
    by_cases hb : b ≠ 0x00 ∧ b ≠ 0x20
    · have hin : inField b = true := by simp [inField, hb]
      rw [if_pos hb, List.takeWhile_cons_of_pos hin]
      obtain ⟨hpos, hval⟩ := ih (fun i => if i = pos then b else out i) (pos + 1)
        (fun i h1 h2 => by rw [if_neg (by omega), hz i (by omega) h2])
      refine ⟨by rw [hpos, List.length_cons]; omega, fun i hi => ?_⟩
      rw [hval i hi]
      rcases Nat.lt_trichotomy i pos with h | rfl | h
      · rw [if_pos (by omega), if_neg (by omega), if_pos h]
      · rw [if_pos (by omega), if_pos rfl, if_neg (by omega), Nat.sub_self]
        rfl
      · rw [if_neg (by omega), if_neg (by omega), show i - pos = i - (pos + 1) + 1 by omega]
        rfl
    · have hin : ¬ inField b = true := by simpa [inField] using hb
      rw [if_neg hb, List.takeWhile_cons_of_neg hin]
      have hout : ∀ i < m, out i = if i < pos then out i else cstr [] (i - pos) := by
        intro i hi
        split
        · rfl
        · rw [hz i (by omega) hi]
          rfl
      split
      · refine ⟨rfl, fun i hi => ?_⟩
        dsimp only
        split
        · rename_i h
          rw [if_neg (by omega)]
          rfl
        · exact hout i hi
      · exact ⟨rfl, hout⟩

theorem takeWhile_nul (l : List UInt8) :
    (l ++ [0x00]).takeWhile inField = l.takeWhile inField := by
  induction l with
  | nil => rfl
  | cons b l ih =>
    rw [List.cons_append, List.takeWhile_cons, List.takeWhile_cons, ih]

theorem inField_iff (b : UInt8) : inField b = true ↔ b ≠ 0x00 ∧ b ≠ 0x20 := by
  simp [inField]

theorem cstr_append (l m : List UInt8) (i : Nat) :
    cstr (l ++ m) i = if i < l.length then cstr l i else cstr m (i - l.length) := by
  unfold cstr
  split
  · rename_i h
    rw [List.getD_append _ _ _ _ h]
  · rename_i h
    rw [List.getD_append_right _ _ _ _ (by omega)]

theorem fat16_get_full_relative_filename_spec (it : FatDirectoryItem) (out : Nat → UInt8)
    (max_len i : Nat) (hi : i < max_len) :
    fat16_get_full_relative_filename it out max_len i = cstr (entryName it) i := by
  unfold fat16_get_full_relative_filename
  obtain ⟨hpos, hval⟩ := fat16_to_proper_string_spec (List.ofFn it.filename ++ [0x00])
    (fun i => if i < max_len then 0x00 else out i) 0 max_len
    (fun i _ h2 => if_pos h2)
  rw [takeWhile_nul] at hpos hval
  dsimp only
  generalize fat16_to_proper_string _ 0 (List.ofFn it.filename ++ [0x00]) = r at *
  set base := (List.ofFn it.filename).takeWhile inField with hbase
  rw [Nat.zero_add] at hpos
  have hval' : ∀ i < max_len, r.1 i = cstr base i := fun i hi => by
    rw [hval i hi, if_neg (by omega), Nat.sub_zero]
  unfold entryName
  rw [← hbase]
  by_cases he : it.ext 0 ≠ 0x00 ∧ it.ext 0 ≠ 0x20
  · rw [if_pos he, if_pos ((inField_iff _).mpr he)]
    obtain ⟨-, hext⟩ := fat16_to_proper_string_spec (List.ofFn it.ext ++ [0x00])
      (fun i => if i = r.2 then 0x2E else r.1 i) (r.2 + 1) max_len (fun i h1 h2 => by
        rw [if_neg (by omega), hval' i h2]
        exact List.getD_eq_default _ _ (by omega))
    rw [hext i hi, takeWhile_nul, cstr_append, hpos]
    rcases Nat.lt_trichotomy i base.length with h | rfl | h
    · rw [if_pos (by omega), if_neg (by omega), if_pos h, hval' i hi]
    · rw [if_pos (by omega), if_pos rfl, if_neg (by omega), Nat.sub_self]
      rfl
    · rw [if_neg (by omega), if_neg (by omega),
        show i - base.length = i - (base.length + 1) + 1 by omega]
      rfl
  · have he' : ¬ inField (it.ext 0) = true := fun h => he ((inField_iff _).mp h)
    rw [if_neg he, if_neg he', List.append_nil, hval' i hi]

/-- A field is written up to its padding, and at most one NUL behind it. -/
theorem proper_string_frame (l : List UInt8) (out : Nat → UInt8) (pos : Nat) :
    (fat16_to_proper_string out pos l).2 = pos + (l.takeWhile inField).length ∧
      ∀ i, pos + (l.takeWhile inField).length < i → (fat16_to_proper_string out pos l).1 i = out i := by
  refine ⟨(fat16_to_proper_string_spec l out pos pos fun i h1 h2 => by omega).1, ?_⟩
  induction l generalizing out pos with
  | nil => exact fun _ _ => rfl
  | cons b rest ih =>
    intro i hi
    rw [fat16_to_proper_string]
    by_cases hb : b ≠ 0x00 ∧ b ≠ 0x20
    · rw [List.takeWhile_cons_of_pos ((inField_iff b).mpr hb), List.length_cons] at hi
      rw [if_pos hb, ih _ _ _ (by omega), if_neg (by omega)]
    · rw [if_neg hb]
      split
      · exact if_neg (by omega)
      · rfl

theorem filename_frame (it : FatDirectoryItem) (out : Nat → UInt8) (max_len i : Nat) (hname : (entryName it).length < i)
    (hmax : max_len ≤ i) : fat16_get_full_relative_filename it out max_len i = out i := by
  obtain ⟨hpos, hkeep⟩ := proper_string_frame (List.ofFn it.filename ++ [0x00])
    (fun i => if i < max_len then 0x00 else out i) 0
  rw [takeWhile_nul, Nat.zero_add] at hpos hkeep
  unfold entryName at hname
  rw [List.length_append] at hname
  unfold fat16_get_full_relative_filename
  generalize fat16_to_proper_string (fun i => if i < max_len then 0x00 else out i) 0
    (List.ofFn it.filename ++ [0x00]) = r at *
  have hr : r.1 i = out i := by
    rw [hkeep i (by omega), if_neg (by omega)]
  dsimp only
  split
  · rename_i hext
    rw [if_pos ((inField_iff _).mpr hext), List.length_cons] at hname
    obtain ⟨-, hkeep'⟩ := proper_string_frame (List.ofFn it.ext ++ [0x00])
      (fun i => if i = r.2 then 0x2E else r.1 i) (r.2 + 1)
    rw [takeWhile_nul] at hkeep'
    rw [hkeep' i (by omega), if_neg (by omega), hr]
  · exact hr

theorem sameName_listed (it : FatDirectoryItem) (buf : Nat → UInt8) (size : Nat) (h : 13 ≤ size) :
    SameName (fat16_tmp_filename it) (fat16_get_full_relative_filename it buf size) := by
  intro k hk hz
  have hlen : k < 13 := by
    by_contra hge
    have := entryName_length it
    apply hz 12 (by omega)
    unfold fat16_tmp_filename
    rw [fat16_get_full_relative_filename_spec _ _ _ _ (by omega)]
    exact List.getD_eq_default _ _ (by omega)
  unfold fat16_tmp_filename
  rw [fat16_get_full_relative_filename_spec _ _ _ _ hk,
    fat16_get_full_relative_filename_spec _ _ _ _ (by omega)]

theorem tmp_filename_congr (it it' : FatDirectoryItem) (hf : it'.filename = it.filename)
    (he : it'.ext = it.ext) : fat16_tmp_filename it' = fat16_tmp_filename it := by
  unfold fat16_tmp_filename fat16_get_full_relative_filename
  rw [hf, he]

theorem tmp_filename_first (it : FatDirectoryItem) :
    fat16_tmp_filename it 0 = if inField (it.filename 0) then it.filename 0
      else if inField (it.ext 0) then 0x2E else 0x00 := by
  unfold fat16_tmp_filename
  rw [fat16_get_full_relative_filename_spec _ _ _ _ (by omega)]
  unfold entryName
  rw [List.ofFn_succ, List.takeWhile_cons]
  split
  · rfl
  · split
    · rfl
    · rfl

theorem not_matches_deleted (it gone : FatDirectoryItem) (hlive : it.filename 0 ≠ 0xE5)
    (hgone : gone.filename 0 = 0xE5) : ¬ Matches it (fat16_tmp_filename gone) := by
  rw [matches_iff]
  intro h
  have h0 := h 0 (by omega) (fun j hj => by omega)
  rw [tmp_filename_first gone, hgone, if_pos (by decide)] at h0
  have h1 : fat16_tmp_filename it 0 ≠ 0xE5 := by
    rw [tmp_filename_first]
    split
    · exact hlive
    · split
      · decide
      · decide
  generalize fat16_tmp_filename it 0 = c at h0 h1
  unfold tolower at h0
  split at h0
  · rename_i hc
    rw [UInt8.le_iff_toNat_le, UInt8.le_iff_toNat_le] at hc
    have := congrArg UInt8.toNat h0
    simp at this hc
    omega
  · exact h1 h0

/-! ## The fields of a new entry -/

theorem fat16_name_field_spec (name : Nat → UInt8) (dot : Bool) (n b k j : Nat) (out : Nat → UInt8)
    (hb : b ≤ n) (hcopy : ∀ i < b, name (k + i) ≠ 0 ∧ ¬ (dot ∧ name (k + i) = 0x2E))
    (hstop : b = n ∨ name (k + b) = 0 ∨ (dot ∧ name (k + b) = 0x2E)) :
    (fat16_name_field name dot n k j out).2 = k + b ∧
      ∀ i, (fat16_name_field name dot n k j out).1 i =
        if j ≤ i ∧ i < j + b then fat16_upper (name (k + (i - j))) else out i := by
  induction n generalizing b k j out with
  | zero =>
    obtain rfl : b = 0 := by omega
    exact ⟨rfl, fun i => by rw [if_neg (by omega)]; rfl⟩
  | succ n ih =>
    rw [fat16_name_field]
    rcases b with _ | b
    · have : ¬ (name k ≠ 0 ∧ ¬ (dot ∧ name k = 0x2E)) := by
        rintro ⟨h0, hd⟩
        rcases hstop with h | h | h
        · omega
        · exact h0 h
        · exact hd h
      rw [if_neg this]
      exact ⟨rfl, fun i => by rw [if_neg (by omega)]⟩
    · rw [if_pos (show name k ≠ 0 ∧ ¬ (dot ∧ name k = 0x2E) from hcopy 0 (by omega))]
      obtain ⟨hk, hval⟩ := ih b (k + 1) (j + 1) (fun i => if i = j then fat16_upper (name k) else out i)
        (by omega)
        (fun i hi => by
          rw [show k + 1 + i = k + (i + 1) by omega]
          exact hcopy (i + 1) (by omega))
        (by
          rw [show k + 1 + b = k + (b + 1) by omega]
          exact hstop.imp (fun h => by omega) id)
      refine ⟨by rw [hk]; omega, fun i => ?_⟩
      rw [hval]
      rcases Nat.lt_trichotomy i j with h | rfl | h
      · rw [if_neg (by omega), if_neg (by omega), if_neg (by omega)]
      · rw [if_neg (by omega), if_pos rfl, if_pos (by omega), Nat.sub_self]
        rfl
      · by_cases h2 : i < j + (b + 1)
        · rw [if_pos (by omega), if_pos (by omega), show k + 1 + (i - (j + 1)) = k + (i - j) by omega]
        · rw [if_neg (by omega), if_neg (by omega), if_neg (by omega)]

theorem takeWhile_padded (n b : Nat) (f : Nat → UInt8) (hb : b ≤ n) (hf : ∀ i < b, inField (f i))
    (hpad : b < n → f b = 0x20) :
    (List.ofFn fun i : Fin n => f i).takeWhile inField = (List.range b).map f := by
  have hsplit : (List.ofFn fun i : Fin n => f i) =
      (List.range b).map f ++ (List.range (n - b)).map fun i => f (b + i) := by
    apply List.ext_getElem
    · simp
      omega
    · intro i h1 h2
      rw [List.getElem_ofFn, List.getElem_append]
      split
      · simp
      · rename_i h
        simp at h ⊢
        rw [show b + (i - b) = i by omega]
  rw [hsplit, List.takeWhile_append_of_pos (fun a ha => by
    obtain ⟨i, hi, rfl⟩ := List.mem_map.mp ha
    exact hf i (List.mem_range.mp hi))]
  rcases Nat.lt_or_ge b n with h | h
  · rw [show n - b = n - b - 1 + 1 by omega, List.range_succ_eq_map, List.map_cons,
      List.takeWhile_cons_of_neg (by rw [Nat.add_zero, hpad h]; decide), List.append_nil]
  · rw [show n - b = 0 by omega]
    simp

theorem upper_ne (c x : UInt8) (hx : x < 65 ∨ 90 < x) (h : c ≠ x) : fat16_upper c ≠ x := by
  unfold fat16_upper
  split
  · rename_i hc
    intro heq
    rw [UInt8.le_iff_toNat_le, UInt8.le_iff_toNat_le] at hc
    rw [UInt8.lt_iff_toNat_lt, UInt8.lt_iff_toNat_lt] at hx
    have hsub := UInt8.toNat_sub_of_le c 32 (UInt8.le_iff_toNat_le.mpr (by simp at hc ⊢; omega))
    rw [heq] at hsub
    simp at hc hx hsub
    omega
  · exact h

theorem inField_upper (c : UInt8) (h : inField c) : inField (fat16_upper c) := by
  rw [inField_iff] at *
  exact ⟨upper_ne c 0 (by decide) h.1, upper_ne c 0x20 (by decide) h.2⟩

section NewEntry

variable (name : Nat → UInt8) (b e : Nat) (hb : b ≤ 8) (he : e ≤ 3)
  (hbase : ∀ i < b, inField (name i) ∧ name i ≠ 0x2E)
  (hext : (name b = 0 ∧ e = 0) ∨ (name b = 0x2E ∧ 1 ≤ e ∧
    (∀ i < e, inField (name (b + 1 + i)) ∧ name (b + 1 + i) ≠ 0x2E) ∧ name (b + 1 + e) = 0))

include hb he hbase hext

theorem fat16_new_entry_fields :
    (fat16_new_entry name).filename =
        (fun i : Fin 8 => if i.val < b then fat16_upper (name i) else 0x20) ∧
      (fat16_new_entry name).ext =
        fun i : Fin 3 => if i.val < e then fat16_upper (name (b + 1 + i)) else 0x20 := by
  obtain ⟨hk, hfname⟩ := fat16_name_field_spec name true 8 b 0 0 (fun _ => 0x20) hb
    (fun i hi => by
      rw [Nat.zero_add]
      exact ⟨((inField_iff _).mp (hbase i hi).1).1, fun h => (hbase i hi).2 h.2⟩)
    (by rw [Nat.zero_add]; exact Or.inr (hext.imp (fun h => h.1) (fun h => ⟨rfl, h.1⟩)))
  rw [Nat.zero_add] at hk
  unfold fat16_new_entry fat16_name_to_83
  dsimp only
  rw [hk]
  constructor
  · funext i
    rw [hfname]
    simp only [Nat.zero_le, true_and, Nat.zero_add, Nat.sub_zero]
  · funext i
    rcases hext with ⟨h0, rfl⟩ | ⟨hdot, -, hchars, hend⟩
    · obtain ⟨-, hfext⟩ := fat16_name_field_spec name false 3 0 b 0 (fun _ => 0x20) he
        (fun i hi => by omega) (Or.inr (Or.inl h0))
      rw [h0, if_neg (by decide), hfext, if_neg (by omega), if_neg (by omega)]
    · obtain ⟨-, hfext⟩ := fat16_name_field_spec name false 3 e (b + 1) 0 (fun _ => 0x20) he
        (fun i hi => ⟨((inField_iff _).mp (hchars i hi).1).1, fun h => by cases h.1⟩)
        (Or.inr (Or.inl hend))
      rw [if_pos hdot, hfext]
      simp only [Nat.zero_le, true_and, Nat.zero_add, Nat.sub_zero]

theorem entryName_new :
    entryName (fat16_new_entry name) = (List.range b).map (fun i => fat16_upper (name i)) ++
      if e = 0 then [] else 0x2E :: (List.range e).map fun i => fat16_upper (name (b + 1 + i)) := by
  obtain ⟨hf, hx⟩ := fat16_new_entry_fields name b e hb he hbase hext
  have hxin : ∀ i < e, inField (fat16_upper (name (b + 1 + i))) := fun i hi => by
    rcases hext with ⟨-, h0⟩ | ⟨-, -, hchars, -⟩
    · omega
    · exact inField_upper _ (hchars i hi).1
  unfold entryName
  rw [hf, hx, takeWhile_padded 8 b (fun i => if i < b then fat16_upper (name i) else 0x20) hb
    (fun i hi => by rw [if_pos hi]; exact inField_upper _ (hbase i hi).1)
    (fun _ => if_neg (Nat.lt_irrefl b)),
    takeWhile_padded 3 e (fun i => if i < e then fat16_upper (name (b + 1 + i)) else 0x20) he
    (fun i hi => by rw [if_pos hi]; exact hxin i hi) (fun _ => if_neg (Nat.lt_irrefl e))]
  congr 1
  · exact List.map_congr_left fun i hi => if_pos (List.mem_range.mp hi)
  · rcases Nat.eq_zero_or_pos e with rfl | hpos
    · rfl
    · rw [if_neg (show ¬ e = 0 by omega), if_pos]
      · exact congrArg _ (List.map_congr_left fun i hi => if_pos (List.mem_range.mp hi))
      · show inField (if 0 < e then _ else _) = true
        rw [if_pos hpos]
        exact hxin 0 hpos

end NewEntry

theorem cstr_map_range (f : Nat → UInt8) (n i : Nat) :
    cstr ((List.range n).map f) i = if i < n then f i else 0 := by
  unfold cstr
  split
  · rename_i h
    rw [List.getD_eq_getElem _ _ (by simpa using h)]
    simp
  · rename_i h
    exact List.getD_eq_default _ _ (by simpa using h)

theorem matches_new (name : Nat → UInt8) (h : Name83 name) : Matches (fat16_new_entry name) name := by
  obtain ⟨b, e, hb1, hb, he, -, hbase, hext⟩ := h
  rw [matches_iff]
  have htmp : ∀ i < 108, fat16_tmp_filename (fat16_new_entry name) i = if i < b then
      fat16_upper (name i) else if e = 0 ∨ b + 1 + e ≤ i then 0 else if i = b then 0x2E else
      fat16_upper (name i) := by
    intro i hi
    unfold fat16_tmp_filename
    rw [fat16_get_full_relative_filename_spec _ _ _ _ hi, entryName_new name b e hb he hbase hext,
      cstr_append, List.length_map, List.length_range, cstr_map_range]
    by_cases hib : i < b
    · rw [if_pos hib, if_pos hib, if_pos hib]
    rw [if_neg hib, if_neg hib]
    by_cases he0 : e = 0
    · rw [if_pos he0, if_pos (Or.inl he0)]
      rfl
    rw [if_neg he0]
    rcases Nat.eq_or_lt_of_le (Nat.le_of_not_lt hib) with rfl | hlt
    · rw [if_neg (by omega), if_pos rfl, Nat.sub_self]
      rfl
    · rw [show i - b = i - (b + 1) + 1 by omega]
      show cstr ((List.range e).map fun i => fat16_upper (name (b + 1 + i))) (i - (b + 1)) = _
      rw [cstr_map_range]
      by_cases hend : b + 1 + e ≤ i
      · rw [if_neg (by omega), if_pos (Or.inr hend)]
      · rw [if_pos (by omega), if_neg (by omega), if_neg (by omega),
          show b + 1 + (i - (b + 1)) = i by omega]
  intro k hk hz
  rw [htmp k hk]
  split
  · exact tolower_upper _
  rename_i hkb
  rcases hext with ⟨h0, rfl⟩ | ⟨hdot, he1, -, hend⟩
  · -- No extension: the name ends here, or has ended before.
    rw [if_pos (Or.inl rfl)]
    rcases Nat.eq_or_lt_of_le (Nat.le_of_not_lt hkb) with rfl | hlt
    · rw [h0]
    · exact absurd (by rw [htmp b (by omega), if_neg (by omega), if_pos (Or.inl rfl)]) (hz b hlt)
  · split
    · rename_i hlast
      rcases Nat.eq_or_lt_of_le (show b + 1 + e ≤ k by omega) with rfl | hlt
      · rw [hend]
      · exact absurd (by rw [htmp _ (by omega), if_neg (by omega), if_pos (by omega)])
          (hz (b + 1 + e) hlt)
    · split
      · rename_i hkb'
        rw [hkb', hdot]
      · exact tolower_upper _

theorem live_new (name : Nat → UInt8) (h : Name83 name) : Live (fat16_new_entry name) := by
  obtain ⟨b, e, hb1, hb, he, hfirst, hbase, hext⟩ := h
  have hname : (fat16_new_entry name).filename 0 = fat16_upper (name 0) := by
    rw [(fat16_new_entry_fields name b e hb he hbase hext).1]
    exact if_pos hb1
  refine ⟨?_, ?_, show (0x20 : UInt8) ≠ 0x0F by decide⟩
  · rw [hname]
    exact upper_ne _ 0 (by decide) ((inField_iff _).mp (hbase 0 (by omega)).1).1
  · rw [hname]
    exact upper_ne _ 0xE5 (by decide) hfirst

end Fat

end PeachOS
