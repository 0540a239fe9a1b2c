import PeachOS.Spec.ShortNames
import Mathlib.Data.List.OfFn
import Mathlib.Data.List.TakeWhile

/-!
# Encoding and decoding names

`fat16_name_to_83` makes the fields of an entry from a text, and `fat16_get_full_relative_filename` makes a text from
the fields.
-/

namespace PeachOS.Fat

/-! ## Letters -/

theorem upper_tolower (c : UInt8) : fat16_upper (tolower c) = fat16_upper c := by
  unfold tolower fat16_upper
  by_cases hc : 65 ≤ c ∧ c ≤ 90
  · rw [if_pos hc]
    rw [UInt8.le_iff_toNat_le, UInt8.le_iff_toNat_le] at hc
    have hadd : (c + 32).toNat = c.toNat + 32 := by
      rw [UInt8.toNat_add]
      simp at hc ⊢
      omega
    have h1 : 97 ≤ c + 32 ∧ c + 32 ≤ 122 := by
      rw [UInt8.le_iff_toNat_le, UInt8.le_iff_toNat_le, hadd]
      simp at hc ⊢
      omega
    have h2 : ¬ (97 ≤ c ∧ c ≤ 122) := by
      rw [UInt8.le_iff_toNat_le, UInt8.le_iff_toNat_le]
      simp at hc ⊢
      omega
    rw [if_pos h1, if_neg h2, UInt8.add_sub_cancel]
  · rw [if_neg hc]

theorem upper_eq_iff (c x : UInt8) (hx : x < 65) : fat16_upper c = x ↔ c = x := by
  constructor
  · intro h
    by_contra hne
    exact upper_ne c x (Or.inl hx) hne h
  · rintro rfl
    unfold fat16_upper
    rw [if_neg]
    rw [UInt8.le_iff_toNat_le]
    rw [UInt8.lt_iff_toNat_lt] at hx
    simp at hx ⊢
    omega

theorem upper_of_not_lower (c : UInt8) (h : ¬ LowerCase c) : fat16_upper c = c := if_neg h

theorem inField_upper_eq (c : UInt8) : inField (fat16_upper c) = inField c := by
  simp [inField, upper_eq_iff c 0 (by decide), upper_eq_iff c 0x20 (by decide)]

theorem sameLetters_iff (a b : List UInt8) : SameLetters a b ↔ a.map fat16_upper = b.map fat16_upper := by
  have hup : ∀ l : List UInt8, (l.map tolower).map fat16_upper = l.map fat16_upper := by
    intro l
    rw [List.map_map]
    exact List.map_congr_left fun c _ => upper_tolower c
  have hlow : ∀ l : List UInt8, (l.map fat16_upper).map tolower = l.map tolower := by
    intro l
    rw [List.map_map]
    exact List.map_congr_left fun c _ => tolower_upper c
  constructor
  · intro h
    rw [← hup a, h, hup]
  · intro h
    unfold SameLetters
    rw [← hlow a, h, hlow]

/-! ## Fields -/

theorem ofFn_padded (n : Nat) (l : List UInt8) (h : l.length ≤ n) :
    List.ofFn (padded n l) = l ++ List.replicate (n - l.length) 0x20 := by
  apply List.ext_getElem
  · simp
    omega
  · intro i h1 h2
    rw [List.getElem_ofFn, List.getElem_append]
    unfold padded
    split
    · rename_i hi
      exact List.getD_eq_getElem _ _ hi
    · rename_i hi
      rw [List.getElem_replicate]
      exact List.getD_eq_default _ _ (Nat.le_of_not_lt hi)

theorem takeWhile_field (n : Nat) (l : List UInt8) (h : l.length ≤ n) :
    (List.ofFn (padded n l)).takeWhile inField = l.takeWhile inField := by
  have hpad : (List.replicate (n - l.length) (0x20 : UInt8)).takeWhile inField = [] := by
    rcases n - l.length with _ | m
    · rfl
    · rfl
  rw [ofFn_padded n l h, List.takeWhile_append]
  split
  · rename_i hall
    rw [hpad, List.append_nil]
    exact (List.takeWhile_prefix inField).eq_of_length hall |>.symm
  · rfl

theorem joinName_map (base ext : List UInt8) :
    joinName (base.map fat16_upper) (ext.map fat16_upper) = (joinName base ext).map fat16_upper := by
  unfold joinName
  by_cases h : ext = []
  · simp [h]
  · simp [h, (upper_eq_iff 0x2E 0x2E (by decide)).mpr rfl]

theorem takeWhile_upper (l : List UInt8) :
    (l.map fat16_upper).takeWhile inField = (l.takeWhile inField).map fat16_upper := by
  rw [List.takeWhile_map]
  congr 2
  funext c
  exact inField_upper_eq c

theorem entryName_padded (it : FatDirectoryItem) (base ext : List UInt8) (hb : base.length ≤ 8) (he : ext.length ≤ 3)
    (hf : it.filename = padded 8 (base.map fat16_upper)) (hx : it.ext = padded 3 (ext.map fat16_upper)) :
    entryName it = (joinName (base.takeWhile inField) (ext.takeWhile inField)).map fat16_upper := by
  have hfirst : inField (it.ext 0) = true ↔ ext.takeWhile inField ≠ [] := by
    rw [hx]
    rcases ext with _ | ⟨c, ext⟩
    · simp [padded, inField]
    · show inField (fat16_upper c) = true ↔ _
      rw [inField_upper_eq, List.takeWhile_cons]
      split <;> simp_all
  unfold entryName
  rw [← joinName_map, hf, hx, takeWhile_field 8 _ (by simpa using hb), takeWhile_field 3 _ (by simpa using he),
    takeWhile_upper, takeWhile_upper]
  unfold joinName
  congr 1
  rw [hx] at hfirst
  by_cases h : ext.takeWhile inField = []
  · rw [if_neg (fun hin => hfirst.mp hin h), if_pos (by simp [h])]
  · rw [if_pos (hfirst.mpr h), if_neg (by simp [h])]

/-! ## From a text to the fields -/

/-- The memory at `name` holds the text and its NUL. -/
def HoldsText (name : Nat → UInt8) (text : List UInt8) : Prop := ∀ i ≤ text.length, name i = cstr text i

theorem holdsText_cstr (text : List UInt8) : HoldsText (cstr text) text := fun _ _ => rfl

theorem holdsText_append (name : Nat → UInt8) (l m : List UInt8) (h : HoldsText name (l ++ m)) :
    HoldsText (fun i => name (l.length + i)) m := by
  intro i hi
  have := h (l.length + i) (by rw [List.length_append]; omega)
  rw [cstr_append, if_neg (by omega), Nat.add_sub_cancel_left] at this
  exact this

theorem name_field_text (name : Nat → UInt8) (dot : Bool) (n k : Nat) (taken rest : List UInt8)
    (hname : HoldsText (fun i => name (k + i)) (taken ++ rest)) (hlen : taken.length ≤ n)
    (hchars : ∀ c ∈ taken, c ≠ 0 ∧ ¬ (dot = true ∧ c = 0x2E))
    (hstop : taken.length = n ∨ rest = [] ∨ (dot = true ∧ rest.head? = some 0x2E)) :
    (fun i : Fin n => (fat16_name_field name dot n k 0 (fun _ => 0x20)).1 i) = padded n (taken.map fat16_upper) ∧
      (fat16_name_field name dot n k 0 (fun _ => 0x20)).2 = k + taken.length := by
  have hat : ∀ i < taken.length, name (k + i) = cstr taken i := by
    intro i hi
    have := hname i (by rw [List.length_append]; omega)
    rwa [cstr_append, if_pos hi] at this
  have hend : name (k + taken.length) = cstr rest 0 := by
    have := hname taken.length (by rw [List.length_append]; omega)
    rwa [cstr_append, if_neg (by omega), Nat.sub_self] at this
  obtain ⟨hk, hval⟩ := fat16_name_field_spec name dot n taken.length k 0 (fun _ => 0x20) hlen
    (fun i hi => by
      rw [hat i hi]
      have hmem : cstr taken i ∈ taken := by
        unfold cstr
        rw [List.getD_eq_getElem _ _ hi]
        exact List.getElem_mem hi
      exact hchars _ hmem)
    (by
      rw [hend]
      rcases hstop with h | rfl | ⟨hd, hhead⟩
      · exact Or.inl h
      · exact Or.inr (Or.inl rfl)
      · rcases rest with _ | ⟨c, rest⟩
        · cases hhead
        · exact Or.inr (Or.inr ⟨hd, Option.some.inj hhead⟩))
  refine ⟨?_, hk⟩
  funext i
  rw [hval]
  unfold padded
  by_cases hi : i.val < taken.length
  · rw [if_pos (by omega), Nat.sub_zero, hat i hi, List.getD_eq_getElem _ _ (by simpa using hi), List.getElem_map]
    unfold cstr
    rw [List.getD_eq_getElem _ _ hi]
  · rw [if_neg (by omega), List.getD_eq_default _ _ (by simpa using hi)]

theorem base83_spec (text : List UInt8) : ∃ rest, text = base83 text ++ rest ∧ (base83 text).length ≤ 8 ∧
    (∀ c ∈ base83 text, c ≠ 0x2E) ∧ ((base83 text).length = 8 ∨ rest = [] ∨ rest.head? = some 0x2E) := by
  have happ : text.takeWhile (fun c => c ≠ 0x2E) ++ text.dropWhile (fun c => c ≠ 0x2E) = text :=
    List.takeWhile_append_dropWhile
  have hchars : ∀ c ∈ text.takeWhile (fun c => c ≠ 0x2E), c ≠ 0x2E := by
    intro c hc
    simpa using List.mem_takeWhile_imp hc
  refine ⟨(text.takeWhile fun c => c ≠ 0x2E).drop 8 ++ text.dropWhile fun c => c ≠ 0x2E, ?_, ?_, ?_, ?_⟩
  · unfold base83
    rw [← List.append_assoc, List.take_append_drop, happ]
  · exact List.length_take_le _ _
  · intro c hc
    exact hchars c (List.mem_of_mem_take hc)
  · rcases Nat.lt_or_ge (text.takeWhile fun c => c ≠ 0x2E).length 8 with hlt | hge
    · right
      rw [List.drop_eq_nil_of_le (by omega), List.nil_append]
      rcases hrest : text.dropWhile (fun c => c ≠ 0x2E) with _ | ⟨c, rest⟩
      · exact Or.inl hrest
      · right
        have hne : text.dropWhile (fun c => c ≠ 0x2E) ≠ [] := by
          rw [hrest]
          exact List.cons_ne_nil _ _
        have hhead := List.head_dropWhile_not (fun c : UInt8 => c ≠ 0x2E) hne
        rw [List.head?_eq_some_head hne]
        simpa using hhead
    · left
      unfold base83
      rw [List.length_take]
      omega

theorem ext83_eq (text base rest : List UInt8) (hbase : base83 text = base) (h : text = base ++ rest) :
    ext83 text = (if rest.head? = some 0x2E then rest.tail else rest).take 3 := by
  have hdrop : text.drop (base83 text).length = rest := by
    rw [hbase, h, List.drop_left]
  unfold ext83
  rw [hdrop]

theorem name_to_83_text (name : Nat → UInt8) (text : List UInt8) (hname : HoldsText name text) (h0 : 0 ∉ text) :
    fat16_name_to_83 name = (padded 8 ((base83 text).map fat16_upper), padded 3 ((ext83 text).map fat16_upper)) := by
  obtain ⟨rest, hsplit, hlen, hdot, hstop⟩ := base83_spec text
  rw [ext83_eq text _ rest rfl hsplit]
  generalize base83 text = base at *
  subst hsplit
  have hbase : ∀ c ∈ base, c ≠ 0 := fun c hc heq => h0 (by simp [← heq, hc])
  have hrest : ∀ c ∈ rest, c ≠ 0 := fun c hc heq => h0 (by simp [← heq, hc])
  obtain ⟨hfname, hk⟩ := name_field_text name true 8 0 base rest (by simpa using hname) hlen
    (fun c hc => ⟨hbase c hc, fun h => hdot c hc h.2⟩)
    (hstop.imp_right fun h => h.imp_right fun h => ⟨rfl, h⟩)
  rw [Nat.zero_add] at hk
  have htail := holdsText_append name base rest hname
  -- The ext field is filled from `t`, which is at `k`.
  have hext : ∀ k t, HoldsText (fun i => name (k + i)) t → (∀ c ∈ t, c ≠ 0) →
      (fun i : Fin 3 => (fat16_name_field name false 3 k 0 (fun _ => 0x20)).1 i) =
        padded 3 ((t.take 3).map fat16_upper) := by
    intro k t ht hchars
    refine (name_field_text name false 3 k (t.take 3) (t.drop 3) (by rw [List.take_append_drop]; exact ht)
      (List.length_take_le _ _) (fun c hc => ⟨hchars c (List.mem_of_mem_take hc), fun h => by cases h.1⟩) ?_).1
    rcases Nat.lt_or_ge t.length 3 with hlt | hge
    · exact Or.inr (Or.inl (List.drop_eq_nil_of_le (by omega)))
    · exact Or.inl (by rw [List.length_take]; omega)
  unfold fat16_name_to_83
  dsimp only
  rw [hk, hfname]
  refine Prod.ext rfl ?_
  have hfirst : name base.length = cstr rest 0 := htail 0 (Nat.zero_le _)
  rcases rest with _ | ⟨c, rest⟩
  · rw [hfirst]
    exact hext _ [] htail hrest
  by_cases hc : c = 0x2E
  · subst hc
    rw [hfirst, if_pos (show cstr (0x2E :: rest) 0 = 0x2E from rfl)]
    refine hext _ rest (fun i hi => ?_) fun c hc => hrest c (by simp [hc])
    have := htail (i + 1) (by rw [List.length_cons]; omega)
    dsimp only at this ⊢
    rw [show base.length + 1 + i = base.length + (i + 1) by omega]
    exact this
  · have hne : ¬ cstr (c :: rest) 0 = 0x2E := hc
    rw [hfirst, if_neg hne, List.head?_cons, if_neg (fun h => hc (Option.some.inj h))]
    exact hext _ _ htail hrest

/-! ## There and back -/

theorem joinName_83 (base ext : List UInt8) (hb : base.length ≤ 8) (hdot : ∀ c ∈ base, c ≠ 0x2E) (he : ext.length ≤ 3) :
    base83 (joinName base ext) = base ∧ ext83 (joinName base ext) = ext := by
  have htake : (joinName base ext).takeWhile (fun c => c ≠ 0x2E) = base := by
    unfold joinName
    rw [List.takeWhile_append_of_pos (fun c hc => by simpa using hdot c hc)]
    split
    · simp
    · simp
  have hbase : base83 (joinName base ext) = base := by
    unfold base83
    rw [htake, List.take_of_length_le hb]
  refine ⟨hbase, ?_⟩
  rw [ext83_eq _ base _ hbase rfl]
  by_cases h : ext = []
  · simp [h]
  · simp only [h, if_false, List.head?_cons, if_true, List.tail_cons]
    exact List.take_of_length_le he

theorem cstr_upper (l : List UInt8) (i : Nat) : cstr (l.map fat16_upper) i = fat16_upper (cstr l i) := by
  unfold cstr
  rcases Nat.lt_or_ge i l.length with h | h
  · rw [List.getD_eq_getElem _ _ h, List.getD_eq_getElem _ _ (by simpa using h), List.getElem_map]
  · rw [List.getD_eq_default _ _ h, List.getD_eq_default _ _ (by simpa using h)]
    rfl

theorem cstr_length (l : List UInt8) (i : Nat) (h : l.length ≤ i) : cstr l i = 0 := List.getD_eq_default _ _ h

theorem eq_padded_takeWhile (n : Nat) (f : Fin n → UInt8) (hpad : ∀ i j, i ≤ j → f i = 0x20 → f j = 0x20)
    (h0 : ∀ i, f i ≠ 0) : f = padded n ((List.ofFn f).takeWhile inField) := by
  have hlist : ∀ l : List UInt8, l.Pairwise (fun a b => a = 0x20 → b = 0x20) → (∀ c ∈ l, c ≠ 0) →
      l = l.takeWhile inField ++ List.replicate (l.length - (l.takeWhile inField).length) 0x20 := by
    intro l
    induction l with
    | nil => simp
    | cons c l ih =>
      intro hl hne
      rw [List.pairwise_cons] at hl
      by_cases hc : inField c
      · rw [List.takeWhile_cons_of_pos hc, List.length_cons, List.length_cons, Nat.add_sub_add_right, List.cons_append,
          ← ih hl.2 fun d hd => hne d (by simp [hd])]
      · have hspace : c = 0x20 := by
          by_contra h
          exact hc ((inField_iff c).mpr ⟨hne c (by simp), h⟩)
        rw [List.takeWhile_cons_of_neg hc, List.nil_append, List.length_nil, Nat.sub_zero, List.eq_replicate_iff]
        refine ⟨rfl, fun d hd => ?_⟩
        rcases List.mem_cons.mp hd with rfl | hd
        · exact hspace
        · exact hl.1 d hd hspace
  apply List.ofFn_injective
  rw [ofFn_padded n _ (length_takeWhile_ofFn n f)]
  have := hlist (List.ofFn f) (List.pairwise_ofFn.mpr fun i j hij => hpad i j (Nat.le_of_lt hij))
    (List.forall_mem_ofFn_iff.mpr h0)
  rwa [List.length_ofFn] at this

theorem entryName_joinName (it : FatDirectoryItem) :
    entryName it = joinName ((List.ofFn it.filename).takeWhile inField) ((List.ofFn it.ext).takeWhile inField) := by
  unfold entryName joinName
  congr 1
  rw [List.ofFn_succ, List.takeWhile_cons]
  by_cases h : inField (it.ext 0)
  · simp [h]
  · simp [h]

theorem inField_joinName (base ext : List UInt8) (hb : ∀ c ∈ base, c ≠ 0) (he : ∀ c ∈ ext, c ≠ 0) :
    0 ∉ joinName base ext := by
  unfold joinName
  split
  · intro h
    exact hb 0 (by simpa using h) rfl
  · intro h
    rcases List.mem_append.mp h with h | h
    · exact hb 0 h rfl
    · rcases List.mem_cons.mp h with h | h
      · cases h
      · exact he 0 h rfl

section Short

variable (name : ShortName)

theorem short_no_nul : 0 ∉ name.text :=
  inField_joinName _ _ (fun c hc => (name.base_chars c hc).2.2) fun c hc => (name.ext_chars c hc).2

theorem short_fields : fat16_name_to_83 (cstr name.text) =
    (padded 8 (name.base.map fat16_upper), padded 3 (name.ext.map fat16_upper)) := by
  obtain ⟨hbase, hext⟩ := joinName_83 name.base name.ext name.base_length (fun c hc => (name.base_chars c hc).1)
    name.ext_length
  rw [name_to_83_text _ name.text (holdsText_cstr _) (short_no_nul name)]
  unfold ShortName.text
  rw [hbase, hext]

theorem takeWhile_all (l : List UInt8) (h : ∀ c ∈ l, c ≠ 0x20 ∧ c ≠ 0) : l.takeWhile inField = l :=
  List.takeWhile_eq_self_iff.mpr fun c hc => (inField_iff c).mpr ⟨(h c hc).2, (h c hc).1⟩

theorem short_entryName (it : FatDirectoryItem) (hit : (it.filename, it.ext) = fat16_name_to_83 (cstr name.text)) :
    entryName it = name.text.map fat16_upper := by
  rw [short_fields] at hit
  obtain ⟨hf, hx⟩ := Prod.mk.inj hit
  rw [entryName_padded it name.base name.ext name.base_length name.ext_length hf hx,
    takeWhile_all _ (fun c hc => (name.base_chars c hc).2), takeWhile_all _ name.ext_chars]
  rfl

theorem short_upper : base83 (name.text.map fat16_upper) = name.base.map fat16_upper ∧
    ext83 (name.text.map fat16_upper) = name.ext.map fat16_upper := by
  have hdot : ∀ c ∈ name.base.map fat16_upper, c ≠ 0x2E := by
    intro c hc
    obtain ⟨d, hd, rfl⟩ := List.mem_map.mp hc
    exact upper_ne d 0x2E (Or.inl (by decide)) (name.base_chars d hd).1
  unfold ShortName.text
  rw [← joinName_map]
  exact joinName_83 _ _ (by simpa using name.base_length) hdot (by simpa using name.ext_length)

end Short

theorem sameName_upper (a : Nat → UInt8) (text : List UInt8) (h : HoldsText a (text.map fat16_upper)) :
    SameName a (cstr text) := by
  intro k hk hz
  have hle : k ≤ text.length := by
    by_contra hgt
    refine hz text.length (by omega) ?_
    rw [h text.length (by simp)]
    exact cstr_length _ _ (by simp)
  rw [h k (by simpa using hle), cstr_upper, tolower_upper]

theorem canonical_fields (it : FatDirectoryItem) (h : CanonicalFields it) (name : Nat → UInt8)
    (hname : HoldsText name (entryName it)) : fat16_name_to_83 name = (it.filename, it.ext) := by
  have hbase : ∀ c ∈ (List.ofFn it.filename).takeWhile inField, c ≠ 0 ∧ c ≠ 0x2E ∧ ¬ LowerCase c := by
    intro c hc
    obtain ⟨i, rfl⟩ := List.mem_ofFn.mp ((List.takeWhile_prefix _).mem hc)
    exact h.filename_chars i
  have hext : ∀ c ∈ (List.ofFn it.ext).takeWhile inField, c ≠ 0 ∧ ¬ LowerCase c := by
    intro c hc
    obtain ⟨i, rfl⟩ := List.mem_ofFn.mp ((List.takeWhile_prefix _).mem hc)
    exact h.ext_chars i
  have hup : ∀ l : List UInt8, (∀ c ∈ l, ¬ LowerCase c) → l.map fat16_upper = l := by
    intro l hl
    exact (List.map_congr_left fun c hc => upper_of_not_lower c (hl c hc)).trans (List.map_id l)
  obtain ⟨h8, h3⟩ := joinName_83 _ _ (length_takeWhile_ofFn 8 it.filename) (fun c hc => (hbase c hc).2.1)
    (length_takeWhile_ofFn 3 it.ext)
  rw [name_to_83_text name _ hname, entryName_joinName, h8, h3, hup _ fun c hc => (hbase c hc).2.2,
    hup _ fun c hc => (hext c hc).2, ← eq_padded_takeWhile 8 _ h.filename_padded fun i => (h.filename_chars i).1,
    ← eq_padded_takeWhile 3 _ h.ext_padded fun i => (h.ext_chars i).1]
  rw [entryName_joinName]
  exact inField_joinName _ _ (fun c hc => (hbase c hc).1) fun c hc => (hext c hc).1

/-- Encoding and decoding undo each other, up to the case of letters, and two names have the same fields exactly if
they differ by the case of letters only. -/
theorem short_names_invert :
    (∀ (name : ShortName) (it : FatDirectoryItem) (out : Nat → UInt8) (max_len : Nat),
      (it.filename, it.ext) = fat16_name_to_83 (cstr name.text) → name.text.length < max_len →
        (∀ i < max_len, fat16_get_full_relative_filename it out max_len i = cstr (name.text.map fat16_upper) i) ∧
        istrncmp (fat16_get_full_relative_filename it out max_len) (cstr name.text) 108 = 0) ∧
    (∀ (it : FatDirectoryItem) (out : Nat → UInt8) (max_len : Nat), CanonicalFields it →
      (entryName it).length < max_len →
        fat16_name_to_83 (fat16_get_full_relative_filename it out max_len) = (it.filename, it.ext)) ∧
    ∀ a b : ShortName,
      fat16_name_to_83 (cstr a.text) = fat16_name_to_83 (cstr b.text) ↔ SameLetters a.text b.text := by
  refine ⟨fun name it out max_len hit hlen => ?_, fun it out max_len h hlen => ?_, fun a b => ?_⟩
  · have hfull : ∀ i < max_len, fat16_get_full_relative_filename it out max_len i =
        cstr (name.text.map fat16_upper) i := by
      intro i hi
      rw [fat16_get_full_relative_filename_spec it out max_len i hi, short_entryName name it hit]
    refine ⟨hfull, (istrncmp_eq_zero _ _).mpr (sameName_upper _ _ fun i hi => hfull i ?_)⟩
    rw [List.length_map] at hi
    omega
  · refine canonical_fields it h _ fun i hi => ?_
    exact fat16_get_full_relative_filename_spec it out max_len i (by omega)
  · rw [sameLetters_iff]
    constructor
    · intro h
      have ha := short_entryName a { FatDirectoryItem.zero with
        filename := (fat16_name_to_83 (cstr a.text)).1, ext := (fat16_name_to_83 (cstr a.text)).2 } rfl
      have hb := short_entryName b { FatDirectoryItem.zero with
        filename := (fat16_name_to_83 (cstr a.text)).1, ext := (fat16_name_to_83 (cstr a.text)).2 } h
      rw [← ha, hb]
    · intro h
      rw [short_fields, short_fields, ← (short_upper a).1, ← (short_upper a).2, h, (short_upper b).1, (short_upper b).2]

/-- The names a.b and A.B -/
def lowerAB : ShortName := ⟨[0x61], [0x62], by simp, by simp, by simp, by simp, by simp⟩

def upperAB : ShortName := ⟨[0x41], [0x42], by simp, by simp, by simp, by simp, by simp⟩

theorem upperAB_canonical : CanonicalFields (fat16_new_entry (cstr upperAB.text)) := by
  refine ⟨by decide, by decide, ?_, ?_, by decide⟩
  · unfold LowerCase
    decide
  · unfold LowerCase
    decide

theorem lowerAB_upperAB :
    istrncmp (fat16_get_full_relative_filename (fat16_new_entry (cstr lowerAB.text)) (fun _ => 0) 108)
        (cstr lowerAB.text) 108 = 0 ∧
      fat16_name_to_83 (fat16_get_full_relative_filename (fat16_new_entry (cstr upperAB.text)) (fun _ => 0) 108) =
        fat16_name_to_83 (cstr upperAB.text) ∧
      fat16_name_to_83 (cstr lowerAB.text) = fat16_name_to_83 (cstr upperAB.text) := by
  refine ⟨(short_names_invert.1 lowerAB (fat16_new_entry (cstr lowerAB.text)) (fun _ => 0) 108 rfl (by decide)).2,
    short_names_invert.2.1 (fat16_new_entry (cstr upperAB.text)) (fun _ => 0) 108 upperAB_canonical ?_,
    (short_names_invert.2.2 lowerAB upperAB).mpr ?_⟩
  · exact Nat.lt_of_le_of_lt (entryName_length _) (by decide)
  · show [0x61, 0x2E, 0x62].map tolower = [0x41, 0x2E, 0x42].map tolower
    decide

end PeachOS.Fat
