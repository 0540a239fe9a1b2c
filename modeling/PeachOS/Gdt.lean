import PeachOS.Spec.Gdt

/-!
# Segment descriptors

What `encodeGdtEntry` writes is read back as it was, and the entries of a table do not touch each other.
-/

namespace PeachOS.Segments

variable {mem mem' : Nat → UInt8}

/-! ## Bytes -/

theorem store8_same (mem : Nat → UInt8) (a : Nat) (b : UInt8) : store8 mem a b a = b := if_pos rfl

theorem store8_other (mem : Nat → UInt8) (a : Nat) (b : UInt8) (x : Nat) (h : x ≠ a) : store8 mem a b x = mem x :=
  if_neg h

theorem low_byte (x : UInt32) : (x &&& 0xFF).toUInt8.toNat = x.toNat % 256 := by
  have hand : x.toNat &&& 255 = x.toNat % 256 := Nat.and_two_pow_sub_one_eq_mod x.toNat 8
  rw [UInt32.toNat_toUInt8, UInt32.toNat_and, show UInt32.toNat 0xFF = 255 from rfl, hand]
  omega

theorem low_nibble (x : UInt32) : (x &&& 0x0F).toUInt8.toNat = x.toNat % 16 := by
  have hand : x.toNat &&& 15 = x.toNat % 16 := Nat.and_two_pow_sub_one_eq_mod x.toNat 4
  rw [UInt32.toNat_toUInt8, UInt32.toNat_and, show UInt32.toNat 0x0F = 15 from rfl, hand]
  omega

theorem shift_toNat (x s : UInt32) (hs : s.toNat < 32) : (x >>> s).toNat = x.toNat / 2 ^ s.toNat := by
  rw [UInt32.toNat_shiftRight, Nat.mod_eq_of_lt hs, Nat.shiftRight_eq_div_pow]

theorem flags_nibble (flags n : UInt8) (hflags : flags = 0x40 ∨ flags = 0xC0) (hn : n.toNat < 16) :
    ((flags ||| n) &&& 0x0F).toNat = n.toNat ∧ ((flags ||| n) &&& 0x80 ≠ 0 ↔ flags = 0xC0) := by
  have hall : ∀ m < 16, ((0x40 ||| UInt8.ofNat m) &&& 0x0F).toNat = m ∧ (0x40 ||| UInt8.ofNat m) &&& 0x80 = 0 ∧
      ((0xC0 ||| UInt8.ofNat m) &&& 0x0F).toNat = m ∧ (0xC0 ||| UInt8.ofNat m) &&& 0x80 ≠ 0 := by decide
  obtain ⟨h1, h2, h3, h4⟩ := hall n.toNat hn
  rw [UInt8.ofNat_toNat] at h1 h2 h3 h4
  rcases hflags with rfl | rfl
  · exact ⟨h1, iff_of_false (not_not_intro h2) (by decide)⟩
  · exact ⟨h3, iff_of_true h4 rfl⟩

/-! ## One entry -/

/-- The bytes of an entry, once it is known if the limit counts pages. -/
structure Written (mem : Nat → UInt8) (target : Nat) (base limit : UInt32) (flags type : UInt8) : Prop where
  limit0 : mem target = (limit &&& 0xFF).toUInt8
  limit1 : mem (target + 1) = (limit >>> 8 &&& 0xFF).toUInt8
  limit2 : mem (target + 6) = flags ||| (limit >>> 16 &&& 0x0F).toUInt8
  base0 : mem (target + 2) = (base &&& 0xFF).toUInt8
  base1 : mem (target + 3) = (base >>> 8 &&& 0xFF).toUInt8
  base2 : mem (target + 4) = (base >>> 16 &&& 0xFF).toUInt8
  base3 : mem (target + 7) = (base >>> 24 &&& 0xFF).toUInt8
  type : mem (target + 5) = type

theorem encodeGdtEntry_spec (mem : Nat → UInt8) (target : Nat) (source : GdtStructured) :
    if source.Rejected then encodeGdtEntry mem target source = none
    else ∃ mem', encodeGdtEntry mem target source = some mem' ∧
      (∀ x, ¬ (target ≤ x ∧ x < target + sizeof_gdt) → mem' x = mem x) ∧
      if 65536 < source.limit then Written mem' target source.base (source.limit >>> 12) 0xC0 source.type
      else Written mem' target source.base source.limit 0x40 source.type := by
  unfold encodeGdtEntry
  split
  · rename_i hrej
    exact if_pos hrej
  rename_i hrej
  rw [if_neg (show ¬ (source.limit > 65536 ∧ source.limit &&& 0xFFF ≠ 0xFFF) from hrej)]
  dsimp only
  refine ⟨_, rfl, ?_, ?_⟩
  · intro x hx
    unfold sizeof_gdt at hx
    split
    · simp (disch := omega) only [store8_other]
    · simp (disch := omega) only [store8_other]
  · split
    · constructor <;> simp (disch := omega) only [store8_other, store8_same]
    · constructor <;> simp (disch := omega) only [store8_other, store8_same]

section Written

variable {target : Nat} {base limit : UInt32} {flags type : UInt8}

theorem written_base (h : Written mem target base limit flags type) :
    descriptorBase (fun i => mem (target + i)) = base.toNat := by
  have hlt := base.toNat_lt
  have h8 : (base >>> 8).toNat = base.toNat / 256 := shift_toNat base 8 (by decide)
  have h16 : (base >>> 16).toNat = base.toNat / 65536 := shift_toNat base 16 (by decide)
  have h24 : (base >>> 24).toNat = base.toNat / 16777216 := shift_toNat base 24 (by decide)
  unfold descriptorBase le32
  simp only [show (0 : Nat) ≠ 3 by decide, show (1 : Nat) ≠ 3 by decide, show (2 : Nat) ≠ 3 by decide,
    if_false, if_true]
  rw [h.base0, h.base1, h.base2, h.base3, low_byte, low_byte, low_byte, low_byte, h8, h16, h24]
  omega

theorem written_limit (h : Written mem target base limit flags type) (hflags : flags = 0x40 ∨ flags = 0xC0)
    (hlt : limit.toNat < 2 ^ 20) :
    descriptorLimit (fun i => mem (target + i)) =
      if flags = 0xC0 then limit.toNat * 4096 + 4095 else limit.toNat := by
  have h8 : (limit >>> 8).toNat = limit.toNat / 256 := shift_toNat limit 8 (by decide)
  have h16 : (limit >>> 16).toNat = limit.toNat / 65536 := shift_toNat limit 16 (by decide)
  have hnib := low_nibble (limit >>> 16)
  obtain ⟨hlow, hpage⟩ := flags_nibble flags (limit >>> 16 &&& 0x0F).toUInt8 hflags (by omega)
  have hraw : le16 (fun i => mem (target + i)) + 65536 * (mem (target + 6) &&& 0x0F).toNat = limit.toNat := by
    unfold le16
    dsimp only
    rw [Nat.add_zero, h.limit0, h.limit1, h.limit2, hlow, hnib, low_byte, low_byte, h8, h16]
    omega
  unfold descriptorLimit
  dsimp only
  rw [hraw]
  simp only [h.limit2, hpage]
  split
  · rw [← Nat.shiftLeft_add_eq_or_of_lt (by decide), Nat.shiftLeft_eq]
  · rfl

end Written

theorem last_of_page (limit : UInt32) (h : limit &&& 0xFFF = 0xFFF) : limit.toNat % 4096 = 4095 := by
  have hand : limit.toNat &&& 4095 = limit.toNat % 4096 := Nat.and_two_pow_sub_one_eq_mod limit.toNat 12
  have hnat := congrArg UInt32.toNat h
  rw [UInt32.toNat_and, show UInt32.toNat 0xFFF = 4095 from rfl, hand] at hnat
  exact hnat

theorem written_decoded (target : Nat) (source : GdtStructured) (hrej : ¬ source.Rejected)
    (h : if 65536 < source.limit then Written mem target source.base (source.limit >>> 12) 0xC0 source.type
      else Written mem target source.base source.limit 0x40 source.type) :
    decodeGdtEntry (fun i => mem (target + i)) = source := by
  have hlt := source.limit.toNat_lt
  have heq : descriptorBase (fun i => mem (target + i)) = source.base.toNat ∧
      descriptorLimit (fun i => mem (target + i)) = source.limit.toNat ∧ mem (target + 5) = source.type := by
    by_cases hlarge : 65536 < source.limit
    · rw [if_pos hlarge] at h
      have h12 : (source.limit >>> 12).toNat = source.limit.toNat / 4096 := shift_toNat source.limit 12 (by decide)
      have hlast := last_of_page source.limit (not_not.mp fun hne => hrej ⟨hlarge, hne⟩)
      refine ⟨written_base h, ?_, h.type⟩
      rw [written_limit h (Or.inr rfl) (by omega), if_pos rfl, h12]
      omega
    · rw [if_neg hlarge] at h
      have hsmall : source.limit.toNat ≤ 65536 := UInt32.le_iff_toNat_le.mp (UInt32.not_lt.mp hlarge)
      refine ⟨written_base h, ?_, h.type⟩
      rw [written_limit h (Or.inl rfl) (by omega), if_neg (by decide)]
  obtain ⟨h1, h2, h3⟩ := heq
  unfold decodeGdtEntry
  dsimp only
  rw [h1, h2, h3, UInt32.ofNat_toNat, UInt32.ofNat_toNat]

theorem encodeGdtEntry_encoded (mem : Nat → UInt8) (target : Nat) (source : GdtStructured) (h : ¬ source.Rejected) :
    ∃ mem', encodeGdtEntry mem target source = some mem' ∧ EncodedAt mem mem' target source := by
  have hspec := encodeGdtEntry_spec mem target source
  rw [if_neg h] at hspec
  obtain ⟨mem', heq, hothers, hwritten⟩ := hspec
  exact ⟨mem', heq, written_decoded target source h hwritten, hothers⟩

/-! ## The table -/

theorem decodeGdtEntry_congr (e e' : Nat → UInt8) (h : ∀ b < sizeof_gdt, e b = e' b) :
    decodeGdtEntry e = decodeGdtEntry e' := by
  unfold sizeof_gdt at h
  unfold decodeGdtEntry descriptorBase descriptorLimit le32 le16
  simp (disch := decide) [h]

theorem gdt_structured_to_gdt_loop_spec (gdt : Nat) (structured_gdt : Nat → GdtStructured) (n i : Nat)
    (mem : Nat → UInt8) (h : ∀ j, i ≤ j → j < i + n → ¬ (structured_gdt j).Rejected) :
    ∃ mem', gdt_structured_to_gdt_loop gdt structured_gdt n i mem = some mem' ∧
      (∀ j, i ≤ j → j < i + n → decodeGdtEntry (fun b => mem' (gdt + sizeof_gdt * j + b)) = structured_gdt j) ∧
      ∀ x, ¬ (gdt + sizeof_gdt * i ≤ x ∧ x < gdt + sizeof_gdt * (i + n)) → mem' x = mem x := by
  induction n generalizing i mem with
  | zero => exact ⟨mem, rfl, fun j h1 h2 => by omega, fun _ _ => rfl⟩
  | succ n ih =>
    obtain ⟨mem1, heq1, hdec, hothers⟩ := encodeGdtEntry_encoded mem (gdt + sizeof_gdt * i) (structured_gdt i)
      (h i (Nat.le_refl i) (by omega))
    obtain ⟨mem', heq, hentries, hframe⟩ := ih (i + 1) mem1 fun j h1 h2 => h j (by omega) (by omega)
    unfold sizeof_gdt at *
    refine ⟨mem', ?_, ?_, ?_⟩
    · rw [gdt_structured_to_gdt_loop]
      unfold sizeof_gdt
      rw [heq1]
      exact heq
    · intro j h1 h2
      rcases Nat.eq_or_lt_of_le h1 with rfl | hlt
      · -- The entries after this one leave it alone.
        rw [← hdec]
        apply decodeGdtEntry_congr
        intro b hb
        unfold sizeof_gdt at hb
        exact hframe _ (by omega)
      · exact hentries j hlt (by omega)
    · intro x hx
      rw [hframe x (by omega), hothers x (by omega)]

/-- Every segment that is accepted is read back as it was, alone and as an entry of a table of any length. -/
theorem gdt_encoding_lossless (mem : Nat → UInt8) :
    (∀ target source, if source.Rejected then encodeGdtEntry mem target source = none
      else ∃ mem', encodeGdtEntry mem target source = some mem' ∧ EncodedAt mem mem' target source) ∧
    ∀ (gdt : Nat) (structured_gdt : Nat → GdtStructured) (total_entires : Int),
      (∀ i : Nat, i < total_entires → ¬ (structured_gdt i).Rejected) →
      ∃ mem', gdt_structured_to_gdt mem gdt structured_gdt total_entires = some mem' ∧
        (∀ i : Nat, i < total_entires →
          decodeGdtEntry (fun b => mem' (gdt + sizeof_gdt * i + b)) = structured_gdt i) ∧
        ∀ x, ¬ (gdt ≤ x ∧ x < gdt + sizeof_gdt * total_entires.toNat) → mem' x = mem x := by
  constructor
  · intro target source
    have hspec := encodeGdtEntry_spec mem target source
    split
    · rename_i hrej
      rwa [if_pos hrej] at hspec
    · rename_i hrej
      exact encodeGdtEntry_encoded mem target source hrej
  · intro gdt structured_gdt total_entires h
    obtain ⟨mem', heq, hentries, hframe⟩ := gdt_structured_to_gdt_loop_spec gdt structured_gdt total_entires.toNat 0 mem
      fun j _ hj => h j (by omega)
    refine ⟨mem', heq, fun i hi => hentries i (Nat.zero_le i) (by omega), ?_⟩
    intro x hx
    apply hframe
    rwa [Nat.mul_zero, Nat.add_zero, Nat.zero_add]

theorem kernelGdt_lossless : ∃ mem',
    gdt_structured_to_gdt (fun _ => 0) 0 (gdt_structured 0x100000) PEACHOS_TOTAL_GDT_SEGMENTS = some mem' ∧
    ∀ i : Nat, (i : Int) < PEACHOS_TOTAL_GDT_SEGMENTS →
      decodeGdtEntry (fun b => mem' (0 + sizeof_gdt * i + b)) = gdt_structured 0x100000 i := by
  have haccepted : ∀ i < PEACHOS_TOTAL_GDT_SEGMENTS, ¬ (gdt_structured 0x100000 i).Rejected := by decide
  obtain ⟨mem', heq, hentries, -⟩ := (gdt_encoding_lossless fun _ => 0).2 0 (gdt_structured 0x100000)
    PEACHOS_TOTAL_GDT_SEGMENTS fun i hi => haccepted i (by omega)
  exact ⟨mem', heq, hentries⟩

end PeachOS.Segments
