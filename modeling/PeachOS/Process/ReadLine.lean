import PeachOS.Spec.LineEditor
import PeachOS.Process.UserBuffers

/-!
# `sys_readline`

The line ends that are left from the line before are taken by a loop of their own, which also takes the first
character. It does not treat this character as an editor does, and it ends when the machine wakes up without a key.
-/

open PeachOS.Lib PeachOS.Blocks PeachOS.Kernel

namespace PeachOS.Memory

variable {keys : Nat → UInt8} {max : Nat}

/-! ## The characters -/

theorem charsOf_succ (keys : Nat → UInt8) (n m : Nat) :
    charsOf keys n (m + 1) = if keys n = 0 then charsOf keys (n + 1) m else keys n :: charsOf keys (n + 1) m := by
  unfold charsOf
  rw [List.range'_succ, List.map_cons, List.filter_cons]
  simp

theorem charsOf_add (keys : Nat → UInt8) (n m l : Nat) :
    charsOf keys n (m + l) = charsOf keys n m ++ charsOf keys (n + m) l := by
  unfold charsOf
  rw [← List.range'_append_1, List.map_append, List.filter_append]

theorem charsOf_head {n j l : Nat} {c d : UInt8} {chars chars' : List UInt8} (h : charsOf keys n j = c :: chars)
    (h' : charsOf keys n l = d :: chars') : c = d := by
  have h1 := charsOf_add keys n j l
  rw [Nat.add_comm, charsOf_add, h, h'] at h1
  exact (List.cons.inj h1).1.symm

/-! ## The editor -/

theorem editFrom_full (line chars : List UInt8) (h : max ≤ line.length + 1) : editFrom max line chars = some line := by
  cases chars <;> rw [editFrom, if_pos h]

theorem editFrom_end (line chars : List UInt8) (c : UInt8) (h : ¬ max ≤ line.length + 1) (hend : lineEnd c = true) :
    editFrom max line (c :: chars) = some (line ++ [c]) := by
  rw [editFrom, if_neg h, if_pos hend]

theorem editFrom_key (line chars : List UInt8) (c : UInt8) (h : ¬ max ≤ line.length + 1) (hend : lineEnd c = false) :
    editFrom max line (c :: chars) = editFrom max (editKey line c) chars := by
  rw [editFrom, if_neg h, if_neg (by simp [hend])]

theorem editFrom_cases (line chars text : List UInt8) (h : editFrom max line chars = some text) :
    (max ≤ line.length + 1 ∧ text = line) ∨ (¬ max ≤ line.length + 1 ∧ ∃ c more, chars = c :: more ∧
      (lineEnd c = true ∧ text = line ++ [c] ∨ lineEnd c = false ∧
        editFrom max (editKey line c) more = some text)) := by
  by_cases hfull : max ≤ line.length + 1
  · rw [editFrom_full line chars hfull] at h
    exact Or.inl ⟨hfull, (Option.some.inj h).symm⟩
  · refine Or.inr ⟨hfull, ?_⟩
    cases chars with
    | nil =>
      rw [editFrom, if_neg hfull] at h
      cases h
    | cons c more =>
      refine ⟨c, more, rfl, ?_⟩
      cases hend : lineEnd c with
      | true =>
        rw [editFrom_end line more c hfull hend] at h
        exact Or.inl ⟨rfl, (Option.some.inj h).symm⟩
      | false =>
        rw [editFrom_key line more c hfull hend] at h
        exact Or.inr ⟨rfl, h⟩

theorem editFrom_append (line chars more text : List UInt8) (h : editFrom max line chars = some text) :
    editFrom max line (chars ++ more) = some text := by
  induction chars generalizing line with
  | nil =>
    obtain ⟨hfull, rfl⟩ | ⟨-, c, more, hnil, -⟩ := editFrom_cases _ _ _ h
    · exact editFrom_full _ _ hfull
    · cases hnil
  | cons c chars ih =>
    obtain ⟨hfull, rfl⟩ | ⟨hroom, d, chars', heq, hkey⟩ := editFrom_cases _ _ _ h
    · exact editFrom_full _ _ hfull
    · cases heq
      rw [List.cons_append]
      obtain ⟨hend, rfl⟩ | ⟨hend, hlater⟩ := hkey
      · exact editFrom_end _ _ _ hroom hend
      · rw [editFrom_key _ _ _ hroom hend]
        exact ih _ hlater

theorem edit_append (chars more text : List UInt8) (h : edit max chars = some text) :
    edit max (chars ++ more) = some text := by
  unfold edit at *
  rw [List.dropWhile_append]
  split
  · rename_i hnil
    rw [List.isEmpty_iff] at hnil
    rw [hnil] at h
    exact editFrom_append [] [] _ text h
  · exact editFrom_append [] _ more text h

theorem edit_charsOf_le {text : List UInt8} (n m l : Nat) (hle : m ≤ l) (h : edit max (charsOf keys n m) = some text) :
    edit max (charsOf keys n l) = some text := by
  obtain ⟨d, rfl⟩ := Nat.exists_eq_add_of_le hle
  rw [charsOf_add]
  exact edit_append _ _ _ h

theorem lineOf_unique {text text' : List UInt8} (h : LineOf keys max text) (h' : LineOf keys max text') :
    text = text' := by
  obtain ⟨m, hm⟩ := h
  obtain ⟨m', hm'⟩ := h'
  have h1 := edit_charsOf_le 0 m (m + m') (by omega) hm
  have h2 := edit_charsOf_le 0 m' (m + m') (by omega) hm'
  exact Option.some.inj (h1.symm.trans h2)

theorem editFrom_no_backspace (line chars text : List UInt8) (hline : 8 ∉ line)
    (h : editFrom max line chars = some text) : 8 ∉ text := by
  induction chars generalizing line with
  | nil =>
    obtain ⟨-, rfl⟩ | ⟨-, c, more, hnil, -⟩ := editFrom_cases _ _ _ h
    · exact hline
    · cases hnil
  | cons c chars ih =>
    obtain ⟨-, rfl⟩ | ⟨-, d, chars', heq, ⟨hend, rfl⟩ | ⟨-, hlater⟩⟩ := editFrom_cases _ _ _ h
    · exact hline
    · have hd : (8 : UInt8) ≠ d := by
        rintro rfl
        exact absurd hend (by decide)
      simp [hline, hd]
    · cases heq
      apply ih _ _ hlater
      unfold editKey
      split
      · exact fun hmem => hline (List.dropLast_subset _ hmem)
      · rename_i hc
        simp [hline, Ne.symm hc]

/-! ## A backspace that is stored -/

theorem editKey_cons (b c : UInt8) (line : List UInt8) (h : ¬ (c = 8 ∧ line = [])) :
    editKey (b :: line) c = b :: editKey line c := by
  unfold editKey
  split
  · rename_i hc
    cases line with
    | nil => exact absurd ⟨hc, rfl⟩ h
    | cons d line => rw [List.dropLast_cons_cons]
  · rfl

theorem takenBack_append (line chars more : List UInt8) (h : TakenBack max line chars) :
    TakenBack max line (chars ++ more) := by
  induction chars generalizing line with
  | nil => cases h
  | cons c chars ih =>
    obtain ⟨hroom, hend, hnow | hlater⟩ := h
    · exact ⟨hroom, hend, Or.inl hnow⟩
    · exact ⟨hroom, hend, Or.inr (ih _ hlater)⟩

theorem editFrom_takenBack (line chars : List UInt8) (h : TakenBack max line chars) :
    editFrom max (8 :: line) chars = editFrom max line chars := by
  induction chars generalizing line with
  | nil => cases h
  | cons c chars ih =>
    obtain ⟨hroom, hend, hlater⟩ := h
    rw [editFrom_key (8 :: line) _ _ (by rw [List.length_cons]; omega) hend, editFrom_key line _ _ (by omega) hend]
    by_cases hnow : c = 8 ∧ line = []
    · obtain ⟨rfl, rfl⟩ := hnow
      rfl
    · rw [editKey_cons 8 c line hnow]
      exact ih _ (hlater.resolve_left hnow)

theorem editFrom_not_takenBack (line chars text : List UInt8) (h : ¬ TakenBack max line chars)
    (hedit : editFrom max (8 :: line) chars = some text) : 8 ∈ text := by
  induction chars generalizing line with
  | nil =>
    obtain ⟨-, rfl⟩ | ⟨-, c, more, hnil, -⟩ := editFrom_cases _ _ _ hedit
    · simp
    · cases hnil
  | cons c chars ih =>
    obtain ⟨-, rfl⟩ | ⟨hroom, d, chars', heq, ⟨-, rfl⟩ | ⟨hend, hlater⟩⟩ := editFrom_cases _ _ _ hedit
    · simp
    · simp
    · cases heq
      rw [List.length_cons] at hroom
      have hstep : ¬ (c = 8 ∧ line = []) ∧ ¬ TakenBack max (editKey line c) chars := by
        rw [← not_or]
        intro hback
        exact h ⟨by omega, hend, hback⟩
      rw [editKey_cons 8 c line hstep.1] at hlater
      exact ih _ hstep.2 hlater

theorem takenBack_room (line chars : List UInt8) (h : TakenBack max line chars) : line.length + 2 < max := by
  cases chars with
  | nil => cases h
  | cons c chars => exact h.1

/-! ## The two loops -/

theorem typedFrom_edit (fuel n : Nat) (line text : List UInt8) (h : typedFrom keys max fuel n line = some text) :
    ∃ m, editFrom max line (charsOf keys n m) = some text := by
  induction fuel generalizing n line with
  | zero => cases h
  | succ fuel ih =>
    rw [typedFrom] at h
    split at h
    · rename_i hfull
      cases h
      exact ⟨0, if_pos hfull⟩
    split at h
    · rename_i hroom h0
      obtain ⟨m, hm⟩ := ih _ _ h
      exact ⟨m + 1, by rw [charsOf_succ, if_pos h0, hm]⟩
    split at h
    · rename_i hroom h0 h8
      obtain ⟨m, hm⟩ := ih _ _ h
      refine ⟨m + 1, ?_⟩
      rw [charsOf_succ, if_neg h0, editFrom, if_neg hroom, h8]
      exact hm
    split at h
    · rename_i hroom h0 h8 hend
      cases h
      refine ⟨1, ?_⟩
      rw [charsOf_succ, if_neg h0, editFrom, if_neg hroom, if_pos]
      unfold lineEnd
      simpa using hend.symm
    · rename_i hroom h0 h8 hend
      obtain ⟨m, hm⟩ := ih _ _ h
      refine ⟨m + 1, ?_⟩
      rw [charsOf_succ, if_neg h0, editFrom, if_neg hroom, if_neg, editKey, if_neg h8]
      · exact hm
      · unfold lineEnd
        simpa [or_comm] using hend

/-- Key `m` is the first one that is not a line end. -/
structure FirstKey (keys : Nat → UInt8) (m : Nat) : Prop where
  ends : ∀ i < m, lineEnd (keys i)
  key : lineEnd (keys m) = false

theorem firstKey_unique {m m' : Nat} (h : FirstKey keys m) (h' : FirstKey keys m') : m = m' := by
  rcases Nat.lt_trichotomy m m' with hlt | heq | hlt
  · exact absurd (h'.ends m hlt) (by simp [h.key])
  · exact heq
  · exact absurd (h.ends m' hlt) (by simp [h'.key])

theorem readline_drain_spec (fuel n : Nat) (c : UInt8) (n' : Nat) (hends : ∀ i < n, lineEnd (keys i))
    (h : readline_drain keys fuel n = some (c, n')) : ∃ m, FirstKey keys m ∧ c = keys m ∧ n' = m + 1 := by
  induction fuel generalizing n with
  | zero => cases h
  | succ fuel ih =>
    rw [readline_drain] at h
    split at h
    · rename_i hend
      apply ih (n + 1) _ h
      intro i hi
      rcases Nat.lt_succ_iff_lt_or_eq.mp hi with hlt | rfl
      · exact hends i hlt
      · unfold lineEnd
        simpa using hend
    · rename_i hend
      cases h
      refine ⟨n, ⟨hends, ?_⟩, rfl, rfl⟩
      unfold lineEnd
      simpa using hend

theorem lineOf_iff {m : Nat} (h : FirstKey keys m) (text : List UInt8) :
    LineOf keys max text ↔ ∃ l, edit max (charsOf keys m (l + 1)) = some text := by
  have hskip : ∀ l, edit max (charsOf keys 0 (m + l)) = edit max (charsOf keys m l) := by
    intro l
    unfold edit
    rw [charsOf_add, Nat.zero_add, List.dropWhile_append_of_pos]
    intro c hc
    unfold charsOf at hc
    obtain ⟨i, hi, rfl⟩ := List.mem_map.mp (List.mem_filter.mp hc).1
    exact h.ends i (by simpa using hi)
  constructor
  · rintro ⟨l, hl⟩
    refine ⟨l, ?_⟩
    rw [← hskip]
    exact edit_charsOf_le 0 l _ (by omega) hl
  · rintro ⟨l, hl⟩
    exact ⟨m + (l + 1), (hskip _).trans hl⟩

theorem lineOf_char {m : Nat} (h : FirstKey keys m) (h0 : keys m ≠ 0) (hmax : 2 ≤ max) (text : List UInt8) :
    LineOf keys max text ↔ ∃ l, editFrom max (editKey [] (keys m)) (charsOf keys (m + 1) l) = some text := by
  rw [lineOf_iff h]
  refine exists_congr fun l => ?_
  unfold edit
  rw [charsOf_succ, if_neg h0, List.dropWhile_cons_of_neg (by simp [h.key]),
    editFrom_key [] _ _ (by rw [List.length_nil]; omega) h.key]

theorem lineOf_idle {m : Nat} (h : FirstKey keys m) (h0 : keys m = 0) (text : List UInt8) :
    LineOf keys max text ↔ ∃ l, edit max (charsOf keys (m + 1) l) = some text := by
  rw [lineOf_iff h]
  refine exists_congr fun l => ?_
  rw [charsOf_succ, if_pos h0]

theorem editFrom_length (line chars text : List UInt8) (hlt : line.length < max)
    (h : editFrom max line chars = some text) : text.length < max := by
  induction chars generalizing line with
  | nil =>
    obtain ⟨-, rfl⟩ | ⟨-, c, more, hnil, -⟩ := editFrom_cases _ _ _ h
    · exact hlt
    · cases hnil
  | cons c chars ih =>
    obtain ⟨-, rfl⟩ | ⟨hroom, d, chars', heq, ⟨-, rfl⟩ | ⟨-, hlater⟩⟩ := editFrom_cases _ _ _ h
    · exact hlt
    · rw [List.length_append, List.length_singleton]
      omega
    · cases heq
      apply ih _ _ hlater
      unfold editKey
      split
      · rw [List.length_dropLast]
        omega
      · rw [List.length_append, List.length_singleton]
        omega

section Cases

variable {m fuel : Nat} {text : List UInt8} (h : FirstKey keys m)

include h

/-- After an idle wake-up, the loop takes a line end for the line. -/
theorem idle_iff (h0 : keys m = 0) (hmax : 1 ≤ max) (htyped : typedFrom keys max fuel (m + 1) [] = some text) :
    LineOf keys max text ↔
      max = 1 ∨ ∃ j d chars, charsOf keys (m + 1) j = d :: chars ∧ (lineEnd d → LineOf keys max [d]) := by
  obtain ⟨l, hl⟩ := typedFrom_edit _ _ _ _ htyped
  obtain ⟨hfull, rfl⟩ | ⟨hroom, d, chars, hchars, hkey⟩ := editFrom_cases _ _ _ hl
  · rw [List.length_nil] at hfull
    refine ⟨fun _ => Or.inl (by omega), fun _ => ?_⟩
    exact (lineOf_idle h h0 []).mpr ⟨0, editFrom_full _ _ hfull⟩
  · rw [List.length_nil] at hroom
    obtain ⟨hend, rfl⟩ | ⟨hend, -⟩ := hkey
    · constructor
      · intro hline
        exact Or.inr ⟨l, d, chars, hchars, fun _ => hline⟩
      · rintro (h1 | ⟨j, d', chars', hj, himp⟩)
        · omega
        · rw [charsOf_head hj hchars] at himp
          exact himp hend
    · constructor
      · intro _
        refine Or.inr ⟨l, d, chars, hchars, fun hend' => absurd hend' (by simp [hend])⟩
      · intro _
        refine (lineOf_idle h h0 text).mpr ⟨l, ?_⟩
        unfold edit
        rw [hchars, List.dropWhile_cons_of_neg (by simp [hend]), ← hchars]
        exact hl

theorem backspace_iff (h8 : keys m = 8) (hmax : 2 ≤ max) (htyped : typedFrom keys max fuel (m + 1) [8] = some text) :
    LineOf keys max text ↔ ∃ j, TakenBack max [] (charsOf keys (m + 1) j) := by
  obtain ⟨l, hl⟩ := typedFrom_edit _ _ _ _ htyped
  have hchar := fun text => lineOf_char h (by rw [h8]; decide) hmax text
  rw [h8] at hchar
  constructor
  · intro hline
    obtain ⟨l', hl'⟩ := (hchar text).mp hline
    by_contra hback
    rw [not_exists] at hback
    exact editFrom_no_backspace _ _ _ (by decide) hl' (editFrom_not_takenBack _ _ _ (hback l) hl)
  · rintro ⟨j, hj⟩
    refine (hchar text).mpr ⟨l + j, ?_⟩
    have hback : TakenBack max [] (charsOf keys (m + 1) (l + j)) := by
      rw [Nat.add_comm l j, charsOf_add]
      exact takenBack_append _ _ _ hj
    refine (editFrom_takenBack [] _ hback).symm.trans ?_
    rw [charsOf_add]
    exact editFrom_append _ _ _ _ hl

end Cases

theorem typed_iff {fuel : Nat} {text : List UInt8} (hmax : 1 ≤ max) (h : typed keys max fuel = some text) :
    (LineOf keys max text ∧ text.length < max) ↔ EditsLine keys max := by
  unfold typed at h
  obtain ⟨⟨c, n⟩, hdrain, htyped⟩ := Option.bind_eq_some_iff.mp h
  obtain ⟨m, hfirst, rfl, rfl⟩ := readline_drain_spec fuel 0 c n (fun i hi => absurd hi (Nat.not_lt_zero i)) hdrain
  dsimp only at htyped
  have hcond : EditsLine keys max ↔ if keys m = 0 then
      max = 1 ∨ ∃ j d chars, charsOf keys (m + 1) j = d :: chars ∧ (lineEnd d → LineOf keys max [d])
    else if keys m = 8 then ∃ j, TakenBack max [] (charsOf keys (m + 1) j) else 2 ≤ max := by
    constructor
    · rintro ⟨m', hends, hkey, hif⟩
      rwa [firstKey_unique ⟨hends, hkey⟩ hfirst] at hif
    · intro hif
      exact ⟨m, hfirst.ends, hfirst.key, hif⟩
  rw [hcond]
  by_cases h0 : keys m = 0
  · rw [if_neg (not_not.mpr h0)] at htyped
    rw [if_pos h0, ← idle_iff hfirst h0 hmax htyped, and_iff_left]
    obtain ⟨l, hl⟩ := typedFrom_edit _ _ _ _ htyped
    exact editFrom_length _ _ _ (by rw [List.length_nil]; omega) hl
  · rw [if_pos h0] at htyped
    rw [if_neg h0]
    obtain ⟨l, hl⟩ := typedFrom_edit _ _ _ _ htyped
    rcases Nat.lt_or_ge max 2 with hlt | hge
    · -- The character is stored where there is no place for it.
      rw [editFrom_full _ _ (by rw [List.length_singleton]; omega)] at hl
      refine iff_of_false ?_ ?_
      · rintro ⟨-, hlen⟩
        rw [← Option.some.inj hl, List.length_singleton] at hlen
        omega
      · split
        · rintro ⟨j, hback⟩
          have hroom := takenBack_room _ _ hback
          omega
        · omega
    · rw [and_iff_left (editFrom_length _ _ _ (by rw [List.length_singleton]; omega) hl)]
      split
      · rename_i h8
        rw [h8] at htyped
        exact backspace_iff hfirst h8 hge htyped
      · rename_i h8
        refine iff_of_true ?_ hge
        rw [lineOf_char hfirst h0 hge, editKey, if_neg h8]
        exact ⟨l, hl⟩

/-! ## The call -/

theorem typedFrom_none (max : Int) (kbuf fuel n : Nat) (line : List UInt8) (mem : Nat → UInt8)
    (h : typedFrom keys max.toNat fuel n line = none) : readline_loop keys max kbuf fuel n line.length mem = none := by
  induction fuel generalizing n line mem with
  | zero => rfl
  | succ fuel ih =>
    rw [typedFrom] at h
    rw [readline_loop]
    split at h
    · cases h
    rename_i hroom
    rw [if_neg (by omega)]
    dsimp only
    split at h
    · rename_i h0
      rw [if_pos h0]
      exact ih _ _ _ h
    rename_i h0
    rw [if_neg h0]
    split at h
    · rename_i h8
      have hlast : (if line.length > 0 then line.length - 1 else line.length) = line.dropLast.length := by
        rw [List.length_dropLast]
        split <;> omega
      rw [if_pos h8, hlast]
      exact ih _ _ _ h
    rename_i h8
    rw [if_neg h8]
    split at h
    · cases h
    · rename_i hend
      rw [if_neg hend]
      have hnext := ih _ _ (fun x => if x = kbuf + line.length then keys n else mem x) h
      rwa [List.length_append, List.length_singleton] at hnext

theorem typed_none (max : Int) (kbuf fuel : Nat) (mem : Nat → UInt8) (h : typed keys max.toNat fuel = none) :
    readline_keys keys max kbuf fuel mem = none := by
  unfold typed at h
  unfold readline_keys
  cases hdrain : readline_drain keys fuel 0 with
  | none => rfl
  | some res =>
    rw [hdrain] at h
    dsimp only [Option.bind_eq_bind, Option.bind_some] at h ⊢
    split
    · rename_i hc
      rw [if_pos hc] at h
      exact typedFrom_none max kbuf fuel _ [res.1] _ h
    · rename_i hc
      rw [if_neg hc] at h
      exact typedFrom_none max kbuf fuel _ [] _ h

variable {k k' : Kernel} {task dir : Nat} {table phys : Nat → Nat}

theorem readline_returns (h : TaskDir k task dir table) (max : Int) (hmax : 0 < max ∧ max ≤ 512) (user : Nat)
    (huser : user < 2 ^ 32) (hb : OwnBuffer k task dir table user max.toNat phys) (htwo : k.TwoFree)
    (fuel : Nat) (r : Int) (hret : k.isr80h_command6_readline keys fuel task user max = some (r, k')) :
    ∃ text, typed keys max.toNat fuel = some text ∧ r = text.length ∧ (text.length < max.toNat →
      (text ≠ [] → ∀ i c, (text ++ [0])[i]? = some c → k'.mem (phys i) = c) ∧
      ∀ x, ¬ k.FreeByte x → (∀ i < max.toNat, x ≠ phys i) → k'.mem x = k.mem x) := by
  obtain ⟨i, hi, -, -, -, hfree, -⟩ := id htwo
  have hnull : (k.kzalloc max.toNat).1 ≠ 0 := by
    intro h0
    exact (kzalloc_null_iff h.heap _ (by omega) (by omega)).mp h0 i hi hfree
  obtain ⟨b, hall⟩ := kzalloc_spec h.heap max.toNat (by omega) (by omega) hnull
  cases htyped : typed keys max.toNat fuel with
  | none =>
    unfold isr80h_command6_readline at hret
    rw [if_neg (by omega)] at hret
    dsimp only at hret
    rw [if_neg hnull, typed_none _ _ _ _ htyped] at hret
    cases hret
  | some text =>
    refine ⟨text, rfl, ?_⟩
    by_cases hcopy : text ≠ [] ∧ text.length < max.toNat
    · obtain ⟨k'', heq, hbytes, hothers⟩ := readline_copies h huser keys max fuel hmax text htyped hcopy.1
        (ownBuffer_le hb (by omega)) hnull fun mem hnext =>
          (kzalloc_null_next h.heap _ _ b (by omega) (by omega) (by omega) (by omega) hall mem).mp hnext htwo
      obtain ⟨rfl, rfl⟩ := Prod.mk.inj (Option.some.inj (heq.symm.trans hret))
      refine ⟨rfl, fun hlt => ⟨fun _ => hbytes, ?_⟩⟩
      intro x hx hplace
      exact hothers x hx fun i hi => hplace i (by omega)
    · obtain ⟨hl, mem', hkeys, -, hframe⟩ := readline_keys_spec keys max hmax (k.kzalloc max.toNat).1 fuel text
        (k.kzalloc max.toNat).2.mem htyped
      have hs := staged_fill h.heap max.toNat b (by omega) (by omega) hall
        (fun x => if x = (k.kzalloc max.toNat).1 + text.length then 0 else mem' x)
        fun x hx => (if_neg (by omega)).trans (hframe x (by omega))
      unfold isr80h_command6_readline at hret
      rw [if_neg (by omega)] at hret
      dsimp only at hret
      rw [if_neg hnull, hkeys] at hret
      simp only [Option.bind_eq_bind, Option.bind_some] at hret
      split at hret
      · rename_i hpos
        obtain ⟨res, -, heq⟩ := Option.map_eq_some_iff.mp hret
        refine ⟨(Prod.mk.inj heq).1.symm, fun hlt => absurd ⟨List.length_pos_iff.mp hpos, hlt⟩ hcopy⟩
      · rename_i hzero
        obtain ⟨rfl, rfl⟩ := Prod.mk.inj (Option.some.inj hret)
        refine ⟨rfl, fun _ => ⟨fun hne => absurd (List.length_pos_iff.mpr hne) hzero, ?_⟩⟩
        intro x hx _
        exact hs.mem x hx

/-- `readline` is an editor of one line exactly for these keys. -/
theorem readline_edits_iff (h : TaskDir k task dir table) (max : Int) (hmax : 0 < max ∧ max ≤ 512) (user : UInt32)
    (hb : OwnBuffer k task dir table user.toNat max.toNat phys) (htwo : k.TwoFree) (fuel : Nat) (r : Int)
    (hret : k.isr80h_command6_readline keys fuel task user.toNat max = some (r, k')) :
    (∃ text, ReadsLine k k' keys max.toNat phys r text) ↔ EditsLine keys max.toNat := by
  obtain ⟨text, htyped, rfl, hcopied⟩ := readline_returns h max hmax _ user.toNat_lt hb htwo fuel r hret
  rw [← typed_iff (by omega) htyped]
  constructor
  · rintro ⟨text', hline⟩
    have hlen : text'.length = text.length := by
      have hres := hline.result
      omega
    have hlt : text.length < max.toNat := hlen ▸ hline.small
    have hsame : text' = text := by
      by_cases hnil : text = []
      · subst hnil
        exact List.length_eq_zero_iff.mp hlen
      · have hnil' : text' ≠ [] := by
          rintro rfl
          exact hnil (List.length_eq_zero_iff.mp hlen.symm)
        apply List.ext_getElem hlen
        intro i h1 h2
        have hplace := hline.bytes hnil' i _ ((List.getElem?_append_left h1).trans (List.getElem?_eq_getElem h1))
        exact hplace.symm.trans
          ((hcopied hlt).1 hnil i _ ((List.getElem?_append_left h2).trans (List.getElem?_eq_getElem h2)))
    rw [hsame] at hline
    exact ⟨hline.line, hlt⟩
  · rintro ⟨hline, hlt⟩
    obtain ⟨hbytes, hothers⟩ := hcopied hlt
    exact ⟨text, hline, rfl, hlt, hbytes, hothers⟩

theorem twoFree_of_room (h : Room k 2) : k.TwoFree := by
  have hle := h.le
  exact ⟨_, by omega, k.heap.table.total - 2, by omega, by omega, h.free (k.heap.table.total - 1) (by omega) (by omega),
    h.free _ (by omega) (by omega)⟩

theorem bootLoad_reads (keys : Nat → UInt8) (max : Int) (fuel : Nat) (hmax : 0 < max ∧ max ≤ 512) (line : List UInt8)
    (hline : typed keys max.toNat fuel = some line) (hne : line ≠ []) (hlen : line.length < max.toNat) :
    ∃ process k dir table phys k', bootLoad = (0, process, k) ∧ TaskDir k (k.process process).task dir table ∧
      OwnBuffer k (k.process process).task dir table 0x400000 max.toNat phys ∧ k.TwoFree ∧
      k.isr80h_command6_readline keys fuel (k.process process).task 0x400000 max = some ((line.length : Int), k') := by
  obtain ⟨process, k, dir, table, hload, hroom, hloaded, hsize, -, hsaddr⟩ := bootLoad_spec
  have hone : ∀ n, 1 ≤ n → n ≤ 513 → heap_total_blocks n = 1 := fun n h1 h2 => one_block n h1 (by omega)
  obtain ⟨phys, hown⟩ := ownBuffer_program hloaded hsize hsaddr max.toNat (by omega)
  obtain ⟨hfirst, hroom'⟩ := room_kzalloc max.toNat 1 (room_le _ _ hroom (by rw [hone _ (by omega) (by omega)]; omega))
    (by rw [hone _ (by omega) (by omega)])
  have hdir := (taskSpace_of_loaded hloaded).toTaskDir
  obtain ⟨k', heq, -⟩ := readline_copies hdir (by decide) keys max fuel hmax line hline hne
    (ownBuffer_le hown hlen) hfirst fun mem =>
      (room_kzalloc (k := { (k.kzalloc max.toNat).2 with mem := mem }) (line.length + 1) 0
        (by rw [hone _ (by omega) (by omega)]; exact room_same 1 hroom' rfl rfl)
        (by rw [hone _ (by omega) (by omega)])).1
  exact ⟨process, k, dir, table, phys, k', hload, hdir, hown, twoFree_of_room (room_le _ _ hroom (by decide)), heq⟩

theorem keyA_edited : ∃ process k phys k' text, bootLoad = (0, process, k) ∧
    k.isr80h_command6_readline (fun _ => 97) 3 (k.process process).task 0x400000 2 = some (1, k') ∧
    ReadsLine k k' (fun _ => 97) 2 phys 1 text := by
  obtain ⟨process, k, dir, table, phys, k', hload, hdir, hown, htwo, heq⟩ :=
    bootLoad_reads (fun _ => 97) 2 3 ⟨by decide, by decide⟩ [97] keyA_typed (by decide) (by decide)
  obtain ⟨text, htext⟩ := (readline_edits_iff hdir 2 ⟨by decide, by decide⟩ 0x400000 hown htwo 3 1 heq).mpr
    ⟨0, fun i hi => absurd hi (Nat.not_lt_zero i), by decide, by simp⟩
  exact ⟨process, k, phys, k', text, hload, heq, htext⟩

/-- Enter is left from the line before, but the machine wakes up before the key is seen. -/
def lateEnter : Nat → UInt8 := fun n => [0, 13, 97, 13].getD n 0

theorem lateEnter_line : LineOf lateEnter 16 [97, 13] := ⟨4, by decide⟩

/-- The line is an empty one, and not the one that is typed then. -/
theorem lateEnter_ends : ∃ process k k', bootLoad = (0, process, k) ∧
    k.isr80h_command6_readline lateEnter 3 (k.process process).task 0x400000 16 = some (1, k') ∧
    ∀ phys, ¬ ∃ text, ReadsLine k k' lateEnter 16 phys 1 text := by
  obtain ⟨process, k, dir, table, phys, k', hload, hdir, hown, htwo, heq⟩ :=
    bootLoad_reads lateEnter 16 3 ⟨by decide, by decide⟩ [13] (by decide) (by decide) (by decide)
  refine ⟨process, k, k', hload, heq, ?_⟩
  rintro phys ⟨text, htext⟩
  have hlen := htext.result
  rw [lineOf_unique htext.line lateEnter_line] at hlen
  exact absurd hlen (by decide)

end PeachOS.Memory
