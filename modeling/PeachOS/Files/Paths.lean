import PeachOS.Spec.Paths
import PeachOS.Code.File
import Mathlib.Data.List.TakeDrop
import Mathlib.Data.List.TakeWhile

/-!
# Parsing paths

The parser copies the path up to the next slash, and it ends at the first empty piece.
-/

namespace PeachOS.Paths

/-! ## Pieces -/

/-- Not a slash. -/
def inPart (c : UInt8) : Bool := c ≠ 0x2F

theorem inPart_iff (c : UInt8) : inPart c = true ↔ c ≠ 0x2F := by
  simp [inPart]

/-- The path up to its first slash. -/
def firstPiece (text : List UInt8) : List UInt8 := text.takeWhile inPart

/-- The path behind its first slash. -/
def behindSlash (text : List UInt8) : List UInt8 := (text.dropWhile inPart).tail

theorem no_slash_firstPiece (text : List UInt8) : 0x2F ∉ firstPiece text := by
  intro h
  have hin := List.mem_takeWhile_imp h
  simp [inPart] at hin

theorem split_slash (text : List UInt8) :
    (text = firstPiece text ∧ behindSlash text = []) ∨ text = firstPiece text ++ 0x2F :: behindSlash text := by
  have happ : firstPiece text ++ text.dropWhile inPart = text := List.takeWhile_append_dropWhile
  unfold behindSlash
  rcases hrest : text.dropWhile inPart with _ | ⟨c, rest⟩
  · left
    rw [hrest, List.append_nil] at happ
    exact ⟨happ.symm, rfl⟩
  · right
    have hc : ¬ inPart c = true := by
      have := List.head_dropWhile_not inPart (l := text) (by simp [hrest])
      simpa [hrest] using this
    rw [inPart_iff, not_not] at hc
    rw [hrest, hc] at happ
    exact happ.symm

theorem behindSlash_length (text : List UInt8) (h : text ≠ []) : (behindSlash text).length < text.length := by
  rcases split_slash text with ⟨-, hnil⟩ | hsplit
  · rw [hnil]
    exact List.length_pos_iff.mpr h
  · have := congrArg List.length hsplit
    rw [List.length_append, List.length_cons] at this
    omega

theorem components_nil : components [] = [] := by
  simp [components]

theorem components_eq (text : List UInt8) : components text =
    if firstPiece text = [] then components (behindSlash text)
    else firstPiece text :: components (behindSlash text) := by
  rcases split_slash text with ⟨htext, hnil⟩ | hsplit
  · rw [hnil, components_nil]
    conv_lhs => rw [htext]
    unfold components
    rw [List.splitOn_eq_singleton (no_slash_firstPiece text)]
    by_cases h : firstPiece text = [] <;> simp [h]
  · conv_lhs => rw [hsplit]
    unfold components
    rw [List.splitOn_append_cons_self_of_not_mem (no_slash_firstPiece text)]
    by_cases h : firstPiece text = [] <;> simp [h]

theorem components_eq_nil (text : List UInt8) : components text = [] ↔ ∀ c ∈ text, c = 0x2F := by
  induction hn : text.length using Nat.strong_induction_on generalizing text with
  | _ n ih =>
    subst hn
    rcases text with _ | ⟨c, text⟩
    · simp [components_nil]
    by_cases hc : c = 0x2F
    · subst hc
      have hfirst : firstPiece (0x2F :: text) = [] := by simp [firstPiece, inPart]
      have hbehind : behindSlash (0x2F :: text) = text := by simp [behindSlash, inPart]
      rw [components_eq, if_pos hfirst, hbehind, ih text.length (by simp) text rfl]
      simp
    · have hfirst : firstPiece (c :: text) ≠ [] := by simp [firstPiece, inPart, hc]
      rw [components_eq, if_neg hfirst]
      simp [hc]

theorem slashesEnd_nil : SlashesEnd [] := by
  intro before after h
  simp at h

theorem slashesEnd_slash (text : List UInt8) : SlashesEnd (0x2F :: text) ↔ ∀ c ∈ text, c = 0x2F := by
  constructor
  · intro h
    exact h [] text rfl (Or.inl rfl)
  · intro h before after heq _ c hc
    have hmem : c ∈ (0x2F : UInt8) :: text := by
      rw [heq]
      simp [hc]
    rcases List.mem_cons.mp hmem with rfl | hin
    · rfl
    · exact h c hin

theorem slashesEnd_behind (part text : List UInt8) (hne : part ≠ []) (hpart : 0x2F ∉ part) :
    SlashesEnd (part ++ 0x2F :: text) ↔ SlashesEnd text := by
  constructor
  · intro h before after heq hlast
    refine h (part ++ 0x2F :: before) after (by simp [heq]) (Or.inr ?_)
    rcases hlast with rfl | hlast
    · simp
    · simp [List.getLast?_append, List.getLast?_cons, hlast]
  · intro h before after heq hlast
    rcases List.append_eq_append_iff.mp heq with ⟨mid, hbefore, hmid⟩ | ⟨mid, hpart', hmid⟩
    · -- The slash is behind the name, or later.
      rcases mid with _ | ⟨m, mid⟩
      · rw [List.append_nil] at hbefore
        subst hbefore
        rcases hlast with rfl | hlast
        · exact absurd rfl hne
        · exact absurd (List.mem_of_getLast? hlast) hpart
      · obtain ⟨rfl, htext⟩ := List.cons.inj hmid
        refine h mid after htext ?_
        rcases mid with _ | ⟨m, mid⟩
        · exact Or.inl rfl
        · right
          subst hbefore
          simpa [List.getLast?_append, List.getLast?_cons] using hlast
    · -- There is no slash in the name.
      rcases mid with _ | ⟨m, mid⟩
      · rw [List.append_nil] at hpart'
        subst hpart'
        rcases hlast with rfl | hlast
        · exact absurd rfl hne
        · exact absurd (List.mem_of_getLast? hlast) hpart
      · obtain ⟨rfl, -⟩ := List.cons.inj hmid
        exact absurd (by simp [hpart']) hpart

/-! ## The parts -/

section Parts

variable (kzalloc : Nat → Bool)

theorem pathparser_parts_succ (fuel j : Nat) (text : List UInt8) : pathparser_parts kzalloc (fuel + 1) j text =
    if firstPiece text ≠ [] ∧ kzalloc (2 * j + 1) = true ∧ kzalloc (2 * j + 2) = true then
      firstPiece text :: pathparser_parts kzalloc fuel (j + 1) (behindSlash text)
    else [] := by
  have hpart : pathparser_parse_path_part (kzalloc (2 * j + 1)) (kzalloc (2 * j + 2)) text =
      (if firstPiece text ≠ [] ∧ kzalloc (2 * j + 1) = true ∧ kzalloc (2 * j + 2) = true then some (firstPiece text)
        else none, behindSlash text) := by
    unfold pathparser_parse_path_part pathparser_get_path_part
    rw [List.span_eq_takeWhile_dropWhile]
    show (if !kzalloc (2 * j + 2) then none else if !kzalloc (2 * j + 1) ∨ firstPiece text = [] then none
      else some (firstPiece text), behindSlash text) = _
    by_cases h0 : firstPiece text = [] <;> cases kzalloc (2 * j + 1) <;> cases kzalloc (2 * j + 2) <;> simp [h0]
  rw [pathparser_parts, hpart]
  split
  · rename_i h
    split at h
    · cases h
    · rename_i hno
      rw [if_neg hno]
  · rename_i part path h
    split at h
    · rename_i hyes
      obtain ⟨hp, rfl⟩ := Prod.mk.inj h
      rw [if_pos hyes, Option.some.inj hp]
    · cases h

theorem parts_iff (fuel j : Nat) (text : List UInt8) (hfuel : text.length < fuel) :
    pathparser_parts kzalloc fuel j text = components text ↔
      SlashesEnd text ∧ ∀ i < 2 * (components text).length, kzalloc (2 * j + 1 + i) = true := by
  induction fuel generalizing j text with
  | zero => omega
  | succ fuel ih =>
    rw [pathparser_parts_succ]
    by_cases hfirst : firstPiece text = []
    · -- The loop ends here.
      rw [if_neg (fun h => h.1 hfirst)]
      rcases split_slash text with ⟨htext, -⟩ | hsplit
      · rw [htext, hfirst, components_nil]
        simp [slashesEnd_nil]
      · rw [hfirst, List.nil_append] at hsplit
        rw [hsplit, slashesEnd_slash, ← components_eq_nil]
        have hcomp : components (0x2F :: behindSlash text) = components (behindSlash text) := by
          rw [← hsplit, components_eq, if_pos hfirst]
        rw [hcomp]
        constructor
        · intro h
          rw [← h]
          simp
        · rintro ⟨h, -⟩
          exact h.symm
    · have hcomp : components text = firstPiece text :: components (behindSlash text) := by
        rw [components_eq, if_neg hfirst]
      have hends : SlashesEnd text ↔ SlashesEnd (behindSlash text) := by
        rcases split_slash text with ⟨htext, hnil⟩ | hsplit
        · rw [hnil]
          refine ⟨fun _ => slashesEnd_nil, fun _ before after heq => ?_⟩
          exact absurd (by rw [htext] at heq; simp [heq]) (no_slash_firstPiece text)
        · conv_lhs => rw [hsplit]
          exact slashesEnd_behind _ _ hfirst (no_slash_firstPiece text)
      have hne : text ≠ [] := by
        rintro rfl
        exact hfirst rfl
      have hlt := behindSlash_length text hne
      have hrest := ih (j + 1) (behindSlash text) (by omega)
      rw [hcomp, hends]
      by_cases halloc : kzalloc (2 * j + 1) = true ∧ kzalloc (2 * j + 2) = true
      · rw [if_pos ⟨hfirst, halloc⟩, List.cons_inj_right, hrest]
        refine and_congr_right fun _ => ⟨fun h i hi => ?_, fun h i hi => ?_⟩
        · rw [List.length_cons] at hi
          rcases i with _ | _ | i
          · exact halloc.1
          · exact halloc.2
          · have := h i (by omega)
            rwa [show 2 * (j + 1) + 1 + i = 2 * j + 1 + (i + 1 + 1) by omega] at this
        · have := h (i + 2) (by rw [List.length_cons]; omega)
          rwa [show 2 * j + 1 + (i + 2) = 2 * (j + 1) + 1 + i by omega] at this
      · rw [if_neg (fun h => halloc h.2)]
        constructor
        · intro h
          cases h
        · rintro ⟨-, h⟩
          rw [List.length_cons] at h
          exact absurd ⟨h 0 (by omega), h 1 (by omega)⟩ halloc

end Parts

/-! ## Whole paths -/

theorem validFormat_iff (text : List UInt8) : pathparser_path_valid_format text ↔ StartsWithDrive text := by
  unfold pathparser_path_valid_format
  constructor
  · rintro ⟨hlen, hdigit, hcolon, hslash⟩
    rcases text with _ | ⟨a, _ | ⟨b, _ | ⟨c, rest⟩⟩⟩
    · simp at hlen
    · simp [PEACHOS_MAX_PATH] at hlen
    · simp [PEACHOS_MAX_PATH] at hlen
    · obtain rfl : b = 0x3A := hcolon
      obtain rfl : c = 0x2F := hslash
      exact ⟨a, rest, hdigit, rfl⟩
  · rintro ⟨drive, rest, hdigit, rfl⟩
    refine ⟨?_, hdigit, rfl, rfl⟩
    simp only [List.length_cons, PEACHOS_MAX_PATH]
    omega

theorem tonumericdigit_nonneg (c : UInt8) (h : isdigit c) : 0 ≤ tonumericdigit c := by
  have h48 : 48 ≤ c.toNat := UInt8.le_iff_toNat_le.mp h.1
  unfold tonumericdigit
  omega

theorem pathparser_parse_eq (path : CString) (kzalloc : Nat → Bool) (drive : UInt8) (rest : List UInt8)
    (hdigit : isdigit drive) (hpath : path.chars = drive :: 0x3A :: 0x2F :: rest)
    (hlen : path.chars.length ≤ 108) (hmem : kzalloc 0 = true) :
    pathparser_parse path kzalloc =
      some ⟨tonumericdigit drive, pathparser_parts kzalloc (rest.length + 1) 0 rest⟩ := by
  have hvalid : pathparser_path_valid_format path.chars := (validFormat_iff _).mpr ⟨drive, rest, hdigit, hpath⟩
  have hdrive : pathparser_get_drive_by_path path.chars = (tonumericdigit drive, rest) := by
    unfold pathparser_get_drive_by_path
    rw [if_neg (not_not_intro hvalid), hpath]
    rfl
  have hnonneg := tonumericdigit_nonneg drive hdigit
  unfold pathparser_parse
  rw [if_neg (by unfold PEACHOS_MAX_PATH; omega), hdrive]
  dsimp only
  rw [if_neg (by omega), hmem]
  rfl

theorem pathparser_parse_some (path : CString) (kzalloc : Nat → Bool) (root : PathRoot)
    (h : pathparser_parse path kzalloc = some root) :
    path.chars.length ≤ 108 ∧ StartsWithDrive path.chars ∧ kzalloc 0 = true := by
  unfold pathparser_parse at h
  split at h
  · cases h
  · rename_i hlen
    unfold PEACHOS_MAX_PATH at hlen
    refine ⟨by omega, ?_⟩
    unfold pathparser_get_drive_by_path at h
    by_cases hvalid : pathparser_path_valid_format path.chars
    · refine ⟨(validFormat_iff _).mp hvalid, ?_⟩
      by_contra hmem
      simp [hmem] at h
    · rw [if_pos hvalid] at h
      dsimp only at h
      rw [if_pos (by decide)] at h
      cases h

/-- The parts of a path are its names exactly if nothing but slashes is behind an empty piece, and there was memory
for every name and its part. -/
theorem parse_keeps_names_iff (path : CString) (kzalloc : Nat → Bool) (root : PathRoot)
    (h : pathparser_parse path kzalloc = some root) :
    root.parts = components (path.chars.drop 3) ↔
      SlashesEnd (path.chars.drop 3) ∧
        ∀ i < 2 * (components (path.chars.drop 3)).length, kzalloc (i + 1) = true := by
  obtain ⟨hlen, ⟨drive, rest, hdigit, hpath⟩, hmem⟩ := pathparser_parse_some path kzalloc root h
  rw [pathparser_parse_eq path kzalloc drive rest hdigit hpath hlen hmem] at h
  obtain rfl := Option.some.inj h
  have hdrop : path.chars.drop 3 = rest := by
    rw [hpath]
    rfl
  rw [hdrop]
  refine (parts_iff kzalloc (rest.length + 1) 0 rest (by omega)).trans (and_congr_right fun _ => ?_)
  refine forall₂_congr fun i _ => ?_
  rw [Nat.add_comm]

/-- The path 0:/a/b/ -/
def pathSlash : CString := ⟨[0x30, 0x3A, 0x2F, 0x61, 0x2F, 0x62, 0x2F], by decide⟩

theorem pathSlash_parts : pathparser_parse pathSlash (fun _ => true) = some ⟨0, [[0x61], [0x62]]⟩ ∧
    [[0x61], [0x62]] = components (pathSlash.chars.drop 3) := by
  refine ⟨rfl, (parse_keeps_names_iff pathSlash (fun _ => true) ⟨0, [[0x61], [0x62]]⟩ rfl).mpr ⟨?_, fun _ _ => rfl⟩⟩
  refine (slashesEnd_behind [0x61] [0x62, 0x2F] (by decide) (by decide)).mpr ?_
  exact (slashesEnd_behind [0x62] [] (by decide) (by decide)).mpr slashesEnd_nil

/-- The path 0:/a//b -/
def pathGap : CString := ⟨[0x30, 0x3A, 0x2F, 0x61, 0x2F, 0x2F, 0x62], by decide⟩

theorem pathGap_drops : pathparser_parse pathGap (fun _ => true) = some ⟨0, [[0x61]]⟩ ∧
    components (pathGap.chars.drop 3) = [[0x61], [0x62]] := ⟨rfl, by decide⟩

theorem fdelete_congr (s : Vfs) (path path' : CString) (kzalloc : Nat → Bool) (drive : Int)
    (parts parts' : List (List UInt8)) (h : pathparser_parse path kzalloc = some ⟨drive, parts⟩)
    (h' : pathparser_parse path' kzalloc = some ⟨drive, parts'⟩) (hhead : parts.head? = parts'.head?) :
    s.fdelete path kzalloc = s.fdelete path' kzalloc := by
  unfold Vfs.fdelete
  rw [h, h']
  cases parts with
  | nil => rw [List.head?_eq_none_iff.mp hhead.symm]
  | cons part parts =>
    obtain ⟨next, rfl⟩ := List.head?_eq_some_iff.mp hhead.symm
    rfl

/-- A delete looks at the first name of the path only. -/
theorem fdelete_first (s : Vfs) (path path' : CString) (kzalloc : Nat → Bool) (drive : UInt8) (rest rest' : List UInt8)
    (hdigit : isdigit drive) (hpath : path.chars = drive :: 0x3A :: 0x2F :: rest)
    (hpath' : path'.chars = drive :: 0x3A :: 0x2F :: rest') (hlen : path.chars.length ≤ 108)
    (hlen' : path'.chars.length ≤ 108) (hmem : kzalloc 0 = true) (hfirst : firstPiece rest = firstPiece rest') :
    s.fdelete path kzalloc = s.fdelete path' kzalloc := by
  refine fdelete_congr s path path' kzalloc _ _ _ (pathparser_parse_eq path kzalloc drive rest hdigit hpath hlen hmem)
    (pathparser_parse_eq path' kzalloc drive rest' hdigit hpath' hlen' hmem) ?_
  rw [pathparser_parts_succ, pathparser_parts_succ, hfirst]
  split <;> rfl

/-! ## Blocks -/

theorem pathparser_get_path_part_loop_spec (text : List UInt8) (i : Nat) (block : Nat → UInt8) :
    pathparser_get_path_part_loop text i block =
      (fun x => if i ≤ x ∧ x < i + (firstPiece text).length then cstr (firstPiece text) (x - i) else block x,
        i + (firstPiece text).length, text.dropWhile inPart) := by
  induction text generalizing i block with
  | nil =>
    refine Prod.ext ?_ rfl
    funext x
    exact (if_neg (by simp [firstPiece])).symm
  | cons c text ih =>
    rw [pathparser_get_path_part_loop]
    by_cases hc : c ≠ 0x2F
    · have hfirst : firstPiece (c :: text) = c :: firstPiece text :=
        List.takeWhile_cons_of_pos ((inPart_iff c).mpr hc)
      rw [if_pos hc, ih, hfirst, List.length_cons, List.dropWhile_cons_of_pos ((inPart_iff c).mpr hc)]
      refine Prod.ext ?_ (Prod.ext (by simp; omega) rfl)
      funext x
      dsimp only
      rcases Nat.lt_trichotomy x i with hlt | rfl | hgt
      · rw [if_neg (by omega), if_neg (by omega), if_neg (by omega)]
      · rw [if_neg (by omega), if_pos rfl, if_pos (by omega), Nat.sub_self]
        rfl
      · by_cases hin : x < i + 1 + (firstPiece text).length
        · rw [if_pos (by omega), if_pos (by omega), show x - i = x - (i + 1) + 1 by omega]
          rfl
        · rw [if_neg (by omega), if_neg (by omega), if_neg (by omega)]
    · have hno : ¬ inPart c = true := fun h => hc ((inPart_iff c).mp h)
      have hfirst : firstPiece (c :: text) = [] := List.takeWhile_cons_of_neg hno
      rw [if_neg hc, hfirst, List.dropWhile_cons_of_neg hno]
      refine Prod.ext ?_ rfl
      funext x
      exact (if_neg (by simp)).symm

theorem pathparser_blocks_eq (kzalloc : Nat → Bool) (block : Nat → Nat → UInt8) (fuel j : Nat) (text : List UInt8) :
    pathparser_blocks kzalloc block fuel j text = (pathparser_parts kzalloc fuel j text).mapIdx
      fun m part x => if x < part.length then cstr part x else block (j + m) x := by
  induction fuel generalizing j text with
  | zero => rfl
  | succ fuel ih =>
    rw [pathparser_blocks, pathparser_parts_succ, pathparser_get_path_part_loop_spec]
    dsimp only
    rw [Nat.zero_add]
    by_cases hgo : firstPiece text ≠ [] ∧ kzalloc (2 * j + 1) = true ∧ kzalloc (2 * j + 2) = true
    · have hlen : (firstPiece text).length ≠ 0 := fun h => hgo.1 (List.length_eq_zero_iff.mp h)
      rw [if_pos hgo, if_neg (by simp [hlen, hgo.2]), List.mapIdx_cons, ih]
      congr 1
      · funext x
        simp
      · congr 1
        funext m part x
        rw [show j + 1 + m = j + (m + 1) by omega]
    · rw [if_neg hgo, if_pos]
      · rfl
      · by_contra hno
        simp only [not_or, Bool.not_eq_true, Bool.not_eq_false'] at hno
        exact hgo ⟨fun h => hno.1 (by rw [h]; rfl), hno.2⟩

theorem intercalate_cons (part part' : List UInt8) (parts : List (List UInt8)) :
    [0x2F].intercalate (part :: part' :: parts) = part ++ 0x2F :: [0x2F].intercalate (part' :: parts) := by
  simp [List.intercalate]

theorem slashesEnd_intercalate (parts : List (List UInt8)) (h : ∀ part ∈ parts, IsComponent part) :
    SlashesEnd ([0x2F].intercalate parts) := by
  induction parts with
  | nil => exact slashesEnd_nil
  | cons part parts ih =>
    have hpart := h part (by simp)
    rcases parts with _ | ⟨part', parts⟩
    · intro before after heq
      have hin : 0x2F ∈ [0x2F].intercalate [part] := by simp [heq]
      exact absurd (by simpa [List.intercalate] using hin) hpart.no_slash
    · rw [intercalate_cons, slashesEnd_behind _ _ hpart.ne_nil hpart.no_slash]
      exact ih fun p hp => h p (by simp [hp])

theorem components_intercalate (parts : List (List UInt8)) (hne : parts ≠ []) (h : ∀ part ∈ parts, IsComponent part) :
    components ([0x2F].intercalate parts) = parts := by
  unfold components
  rw [List.splitOn_intercalate 0x2F (fun part hpart => (h part hpart).no_slash) hne, List.filter_eq_self]
  intro part hpart
  simpa using (h part hpart).ne_nil

theorem length_le_intercalate (parts : List (List UInt8)) (part : List UInt8) (h : part ∈ parts) :
    part.length ≤ ([0x2F].intercalate parts).length := by
  induction parts with
  | nil => cases h
  | cons first parts ih =>
    rcases parts with _ | ⟨next, parts⟩
    · obtain rfl : part = first := by simpa using h
      simp [List.intercalate]
    · rw [intercalate_cons, List.length_append, List.length_cons]
      rcases List.mem_cons.mp h with rfl | hin
      · omega
      · have := ih hin
        omega

/-- Parsing undoes formatting, in blocks of 108 bytes, and refuses exactly the strings that are too long or that do not
start with a drive. -/
theorem parse_undoes_format (kzalloc : Nat → Bool) (hmem : ∀ i, kzalloc i = true) :
    (∀ (drive : UInt8) (parts : List (List UInt8)) (path : CString), isdigit drive → parts ≠ [] →
      (∀ part ∈ parts, IsComponent part) → path.chars = formatPath drive parts → path.chars.length ≤ 108 →
      pathparser_parse path kzalloc = some ⟨tonumericdigit drive, parts⟩ ∧
        ∀ block : Nat → Nat → UInt8, (∀ j, ∀ i < 108, block j i = 0) →
          ∃ blocks,
            pathparser_blocks kzalloc block ((path.chars.drop 3).length + 1) 0 (path.chars.drop 3) = blocks ∧
            blocks.length = parts.length ∧
            ∀ j part b, parts[j]? = some part → blocks[j]? = some b → PartBlock (block j) b part) ∧
    ∀ path : CString, pathparser_parse path kzalloc = none ↔
      108 < path.chars.length ∨ ¬ StartsWithDrive path.chars := by
  constructor
  · intro drive parts path hdigit hne hparts hpath hlen
    have hdrop : path.chars.drop 3 = [0x2F].intercalate parts := by
      rw [hpath]
      rfl
    have hall :
        pathparser_parts kzalloc (([0x2F].intercalate parts).length + 1) 0 ([0x2F].intercalate parts) = parts := by
      have hiff := parts_iff kzalloc (([0x2F].intercalate parts).length + 1) 0 ([0x2F].intercalate parts) (by omega)
      rw [components_intercalate parts hne hparts] at hiff
      exact hiff.mpr ⟨slashesEnd_intercalate parts hparts, fun i _ => hmem _⟩
    refine ⟨?_, fun block hblock => ⟨_, rfl, ?_⟩⟩
    · rw [pathparser_parse_eq path kzalloc drive _ hdigit hpath hlen (hmem 0), hall]
    rw [pathparser_blocks_eq, hdrop, hall]
    refine ⟨List.length_mapIdx, fun j part b hpart hb => ?_⟩
    have hlt : part.length ≤ 105 := by
      have hle := length_le_intercalate parts part (List.mem_of_getElem? hpart)
      rw [← hdrop, List.length_drop] at hle
      omega
    rw [List.getElem?_mapIdx, hpart] at hb
    obtain rfl := Option.some.inj hb
    dsimp only
    constructor
    case chars => exact fun i hi => if_pos hi
    case nul =>
      rw [if_neg (Nat.lt_irrefl _)]
      exact hblock _ _ (by omega)
    case untouched =>
      intro i hi
      rw [if_neg (by omega), Nat.zero_add]
  · intro path
    constructor
    · intro hnone
      by_contra hok
      rw [not_or, not_not] at hok
      obtain ⟨hlen, drive, rest, hdigit, hpath⟩ := hok
      rw [pathparser_parse_eq path kzalloc drive rest hdigit hpath (by omega) (hmem 0)] at hnone
      cases hnone
    · intro hbad
      by_contra hsome
      obtain ⟨root, hroot⟩ := Option.ne_none_iff_exists'.mp hsome
      obtain ⟨hlen, hstart, -⟩ := pathparser_parse_some path kzalloc root hroot
      rcases hbad with hlong | hno
      · omega
      · exact hno hstart

theorem parse_undoes_format_sample :
    pathparser_parse ⟨[0x30, 0x3A, 0x2F, 0x61, 0x2F, 0x62], by decide⟩ (fun _ => true) =
        some ⟨tonumericdigit 0x30, [[0x61], [0x62]]⟩ ∧
      pathparser_parse ⟨[0x61], by decide⟩ (fun _ => true) = none := by
  obtain ⟨hparse, hrefuse⟩ := parse_undoes_format (fun _ => true) (fun _ => rfl)
  refine ⟨(hparse 0x30 [[0x61], [0x62]] _ (by decide) (by decide) ?_ rfl (by decide)).1, (hrefuse _).mpr (Or.inr ?_)⟩
  · intro part hpart
    rcases List.mem_cons.mp hpart with rfl | hpart
    · exact ⟨by decide, by decide, by decide⟩
    · obtain rfl := List.mem_singleton.mp hpart
      exact ⟨by decide, by decide, by decide⟩
  · rintro ⟨drive, rest, -, heq⟩
    cases heq

end PeachOS.Paths
