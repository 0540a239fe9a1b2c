import PeachOS.Spec.Streams
import PeachOS.Lib.Paged

/-!
# The disk streams

A stream write of `total` bytes at `pos` is a splice of the disk, one sector write at a time.
-/

open PeachOS.Lib

namespace PeachOS.Streamer

/-- `d'` comes from `d` by sector writes, and every disk on the way satisfies `P`. -/
def Steps (P : (Nat → Sector) → Prop) (d d' : Disk) : Prop :=
  d'.stack = d.stack ∧ ∃ ws, d'.writes = d.writes ++ ws ∧ d'.sector = applyWrites ws d.sector ∧
    Through P d.sector ws

theorem steps_refl (P : (Nat → Sector) → Prop) (d : Disk) (h : P d.sector) : Steps P d d :=
  ⟨rfl, [], by simp, rfl, through_nil P d.sector h⟩

theorem steps_trans (P : (Nat → Sector) → Prop) (d e f : Disk) (h1 : Steps P d e)
    (h2 : Steps P e f) : Steps P d f := by
  obtain ⟨hs1, ws, hw1, hd1, ht1⟩ := h1
  obtain ⟨hs2, vs, hw2, hd2, ht2⟩ := h2
  refine ⟨by rw [hs2, hs1], ws ++ vs, ?_, ?_, ?_⟩
  · rw [hw2, hw1, List.append_assoc]
  · rw [hd2, hd1, applyWrites_append]
  · apply through_append P d.sector ws vs ht1
    rw [← hd1]
    exact ht2

theorem steps_last (P : (Nat → Sector) → Prop) (d d' : Disk) (h : Steps P d d') : P d'.sector := by
  obtain ⟨-, ws, -, hd, ht⟩ := h
  rw [hd]
  exact through_last P d.sector ws ht

theorem steps_mono (P Q : (Nat → Sector) → Prop) (d d' : Disk) (h : Steps P d d')
    (hpq : ∀ s, P s → Q s) : Steps Q d d' := by
  obtain ⟨hs, ws, hw, hd, ht⟩ := h
  exact ⟨hs, ws, hw, hd, through_mono P Q d.sector ws ht hpq⟩

/-! ## The sector of a position -/

theorem sector_of_pos (pos : Nat) (h : pos ≤ 0x80000000) : u32 ((pos : Int).tdiv 512) = pos / 512 := by
  rw [Int.tdiv_eq_ediv_of_nonneg (by omega)]
  unfold u32
  omega

theorem offset_of_pos (pos : Nat) : (pos : Int).tmod 512 = ((pos % 512 : Nat) : Int) := by
  rw [Int.tmod_eq_emod_of_nonneg (by omega)]
  omega

/-! ## Writing -/

theorem copy_eq_spliced (s : Nat → Sector) (pos n : Nat) (inp : Nat → UInt8) (h : pos % 512 + n ≤ 512) :
    (fun i => if i = pos / 512 then Sector.copy (s (pos / 512)) ((pos % 512 : Nat) : Int) inp n
      else s i) = spliced s pos n inp := by
  rw [spliced_in_page s pos n inp h]
  funext i j
  by_cases hi : i = pos / 512
  · simp only [hi, if_true, Sector.copy]
    by_cases hj : pos % 512 ≤ (j : Nat) ∧ (j : Nat) < pos % 512 + n
    · rw [if_pos hj, if_pos (by omega)]
      congr 1
      omega
    · rw [if_neg hj, if_neg (by omega)]
  · simp only [if_neg hi]

theorem diskstreamer_write_rec_succ (fuel : Nat) (d : Disk) (pos : Nat) (inp : Nat → UInt8)
    (total : Nat) (hpos : pos + total ≤ 0x80000000) (n : Nat) (hn : n = min total (512 - pos % 512)) :
    ∃ e : Disk, e.stack = d.stack ∧ e.sector = spliced d.sector pos n inp ∧
      (∃ b, e.writes = d.writes ++ [(pos / 512, b)] ∧
        e.sector = fun i => if i = pos / 512 then b else d.sector i) ∧
      diskstreamer_write_rec (fuel + 1) d ⟨pos, 0⟩ inp total =
        if total > n then
          diskstreamer_write_rec fuel e ⟨(pos + n : Nat), 0⟩ (fun i => inp (i + n)) (total - n)
        else (0, e, ⟨i32 (pos + n : Nat), 0⟩) := by
  have hsec := sector_of_pos pos (by omega)
  have hoff := offset_of_pos pos
  have hroom : ((512 : Int) - ((pos % 512 : Nat) : Int)).toNat = 512 - pos % 512 := by omega
  have hmin : (if total > 512 - pos % 512 then 512 - pos % 512 else total) = n := by
    rw [hn]
    split <;> omega
  refine ⟨(disk_write_block d 0 (pos / 512) (Sector.copy (d.sector (pos / 512))
    ((pos % 512 : Nat) : Int) inp n)).2, rfl, copy_eq_spliced d.sector pos n inp (by omega),
    ⟨_, rfl, rfl⟩, ?_⟩
  rw [diskstreamer_write_rec]
  simp only [hsec, hoff, hroom, hmin, disk_read_block, disk_write_block, ne_eq, not_true_eq_false,
    if_false, lt_self_iff_false]
  by_cases hgt : total > n
  · rw [if_pos hgt, if_pos hgt, i32_of_lt _ (by omega) (by omega), Int.natCast_add]
  · rw [if_neg hgt, if_neg hgt, Int.natCast_add]

/-- A write of `total` bytes at `pos` can stop after `m` bytes: at its ends, or between sectors. -/
def Cut (pos total m : Nat) : Prop := m = 0 ∨ m = total ∨ (pos + m) % 512 = 0

theorem diskstreamer_write_rec_spec (P : (Nat → Sector) → Prop) (fuel : Nat) (d : Disk) (pos : Nat)
    (inp : Nat → UInt8) (total : Nat) (hpos : pos + total ≤ 0x80000000) (hfuel : total < fuel)
    (hP : ∀ m ≤ total, Cut pos total m → P (spliced d.sector pos m inp)) :
    ∃ e stream, diskstreamer_write_rec fuel d ⟨pos, 0⟩ inp total = (0, e, stream) ∧
      stream = ⟨i32 (pos + total : Nat), 0⟩ ∧ e.sector = spliced d.sector pos total inp ∧
      Steps P d e := by
  induction fuel generalizing d pos inp total with
  | zero => omega
  | succ fuel ih =>
    obtain ⟨e, hstack, hsec, ⟨b, hw, hb⟩, heq⟩ :=
      diskstreamer_write_rec_succ fuel d pos inp total hpos _ rfl
    set n := min total (512 - pos % 512) with hn
    have hone : Steps P d e := by
      refine ⟨hstack, [(pos / 512, b)], hw, by rw [hb]; rfl, ?_⟩
      have h0 := hP 0 (by omega) (Or.inl rfl)
      have h1 := hP n (by omega) (by unfold Cut; omega)
      rw [spliced_zero] at h0
      rw [← hsec, hb] at h1
      exact through_single P d.sector _ b h0 h1
    rw [heq]
    by_cases hgt : total > n
    · -- More than this sector: the rest is a splice right after.
      rw [if_pos hgt]
      have hrest : ∀ m ≤ total - n, Cut (pos + n) (total - n) m →
          P (spliced e.sector (pos + n) m (fun i => inp (i + n))) := by
        intro m hm hcut
        rw [hsec, spliced_spliced]
        exact hP (n + m) (by omega) (by unfold Cut at *; omega)
      obtain ⟨f, stream, hf, hstream, hfs, hsteps⟩ :=
        ih e (pos + n) (fun i => inp (i + n)) (total - n) (by omega) (by omega) hrest
      refine ⟨f, stream, hf, ?_, ?_, steps_trans P d e f hone hsteps⟩
      · rw [hstream, show pos + n + (total - n) = pos + total by omega]
      · rw [hfs, hsec, spliced_spliced, show n + (total - n) = total by omega]
    · rw [if_neg hgt]
      have hnt : n = total := by omega
      exact ⟨e, _, rfl, by rw [hnt], by rw [hsec, hnt], hone⟩

theorem diskstreamer_write_spec (P : (Nat → Sector) → Prop) (d : Disk) (pos : Nat)
    (inp : Nat → UInt8) (total : Nat) (hpos : pos + total ≤ 0x80000000)
    (hP : ∀ m ≤ total, Cut pos total m → P (spliced d.sector pos m inp)) :
    ∃ e stream, diskstreamer_write d ⟨pos, 0⟩ inp total = (0, e, stream) ∧
      stream = ⟨i32 (pos + total : Nat), 0⟩ ∧ e.sector = spliced d.sector pos total inp ∧
      Steps P d e :=
  diskstreamer_write_rec_spec P (total + 1) d pos inp total hpos (by omega) hP

theorem diskstreamer_write_one (d : Disk) (pos : Nat) (inp : Nat → UInt8) (total : Nat)
    (hpos : pos + total ≤ 0x80000000) (hin : pos % 512 + total ≤ 512) :
    ∃ e stream b, diskstreamer_write d ⟨pos, 0⟩ inp total = (0, e, stream) ∧
      stream = ⟨i32 (pos + total : Nat), 0⟩ ∧ e.stack = d.stack ∧
      e.sector = spliced d.sector pos total inp ∧ e.writes = d.writes ++ [(pos / 512, b)] ∧
      e.sector = applyWrites [(pos / 512, b)] d.sector := by
  obtain ⟨e, hstack, hsec, ⟨b, hw, hb⟩, heq⟩ :=
    diskstreamer_write_rec_succ total d pos inp total hpos total (by omega)
  rw [if_neg (lt_irrefl total)] at heq
  exact ⟨e, _, b, heq, rfl, hstack, hsec, hw, hb⟩

/-! ## Reading -/

/-- The memory at `out` after `total` bytes from `pos` were read into it. -/
def readAt (s : Nat → Sector) (pos total : Nat) (out : Nat → UInt8) : Nat → UInt8 :=
  fun i => if i < total then cellAt s (pos + i) else out i

theorem bufAt_sector (d : Disk) (pos i : Nat) (h : pos % 512 + i < 512) :
    d.bufAt (d.sector (pos / 512)) (((pos % 512 : Nat) : Int) + i) = cellAt d.sector (pos + i) := by
  have hq : (pos + i) / 512 = pos / 512 := by omega
  have hj : (pos + i) % 512 = pos % 512 + i := by omega
  rw [Disk.bufAt, dif_pos (by omega)]
  unfold cellAt
  simp only [hq, hj]
  congr 1

theorem diskstreamer_read_rec_spec (fuel : Nat) (d : Disk) (pos : Nat) (out : Nat → UInt8)
    (total : Nat) (hpos : pos + total ≤ 0x80000000) (hfuel : total / 512 < fuel)
    (hok : pos % 512 = 0 ∨ pos % 512 + total ≤ 512) :
    diskstreamer_read_rec d fuel ⟨pos, 0⟩ out total =
      (0, readAt d.sector pos total out, ⟨i32 (pos + total : Nat), 0⟩) := by
  induction fuel generalizing pos out total with
  | zero => omega
  | succ fuel ih =>
    have hsec := sector_of_pos pos (by omega)
    have hoff := offset_of_pos pos
    rw [diskstreamer_read_rec]
    simp only [hsec, hoff, disk_read_block, ne_eq, not_true_eq_false, if_false, lt_self_iff_false]
    by_cases hgt : (total : Int) > 512
    · -- A whole sector, then the rest from the next sector on.
      rw [if_pos hgt, if_pos hgt, i32_of_lt _ (by omega) (by omega),
        show (pos : Int) + 512 = (pos + 512 : Nat) by omega,
        show (total : Int) - 512 = (total - 512 : Nat) by omega,
        ih (pos + 512) _ (total - 512) (by omega) (by omega) (by omega)]
      simp only [show pos + 512 + (total - 512) = pos + total by omega, Prod.mk.injEq, and_true,
        true_and]
      funext i
      by_cases hi : i < 512
      · rw [if_pos hi, if_pos (by omega), bufAt_sector d pos i (by omega), readAt, if_pos (by omega)]
      · simp only [if_neg hi, readAt]
        by_cases ht : i < total
        · rw [if_pos ht, if_pos (by omega), show pos + 512 + (i - 512) = pos + i by omega]
        · rw [if_neg ht, if_neg (by omega), show i - 512 + 512 = i by omega]
    · rw [if_neg hgt, if_neg hgt, ← Int.natCast_add]
      simp only [Prod.mk.injEq, and_true, true_and]
      funext i
      by_cases ht : i < total
      · rw [if_pos (by omega), readAt, if_pos ht, bufAt_sector d pos i (by omega)]
      · rw [if_neg (by omega), readAt, if_neg ht]

theorem diskstreamer_read_spec (d : Disk) (pos : Nat) (out : Nat → UInt8) (total : Nat)
    (hpos : pos + total ≤ 0x80000000) (hok : pos % 512 = 0 ∨ pos % 512 + total ≤ 512) :
    diskstreamer_read d ⟨pos, 0⟩ out total =
      (0, readAt d.sector pos total out, ⟨i32 (pos + total : Nat), 0⟩) := by
  unfold diskstreamer_read
  exact diskstreamer_read_rec_spec _ d pos out total hpos (by simp) hok

/-! ## Ranges -/

theorem mem_readIndexes (pos n : Nat) (i : Int) :
    i ∈ readIndexes pos n ↔ ((pos % 512 : Nat) : Int) ≤ i ∧ i < ((pos % 512 + n : Nat) : Int) := by
  have hoff : (pos : Int).tmod 512 = ((pos % 512 : Nat) : Int) := by
    rw [Int.tmod_eq_emod_of_nonneg (by omega)]
    omega
  unfold readIndexes
  rw [List.mem_map, hoff, Int.toNat_natCast]
  constructor
  · rintro ⟨j, hj, rfl⟩
    have := List.mem_range.mp hj
    omega
  · rintro ⟨h1, h2⟩
    exact ⟨(i - (pos % 512 : Nat)).toNat, List.mem_range.mpr (by omega), by omega⟩

theorem readRun_aligned (n pos total : Nat) (hn : total ≤ n * 512) (h : pos + total < 0x80000000)
    (hpos : pos % 512 = 0) : ∃ l, ReadRun pos total l ∧ ∀ i ∈ l, 0 ≤ i ∧ i < 512 := by
  induction n generalizing pos total with
  | zero =>
    refine ⟨_, .last pos total (by omega), ?_⟩
    intro i hi
    have := (mem_readIndexes pos total i).mp hi
    omega
  | succ n ih =>
    by_cases hgt : (total : Int) > 512
    · obtain ⟨l, hl, hin⟩ := ih (pos + 512) (total - 512) (by omega) (by omega) (by omega)
      rw [Int.natCast_add, Int.natCast_sub (by omega)] at hl
      refine ⟨_, .next pos total l hgt ?_, ?_⟩
      · rw [i32_of_lt _ (by omega) (by omega)]
        exact hl
      · intro i hi
        rcases List.mem_append.mp hi with hfirst | hrest
        · have := (mem_readIndexes pos 512 i).mp hfirst
          omega
        · exact hin i hrest
    · refine ⟨_, .last pos total hgt, ?_⟩
      intro i hi
      have := (mem_readIndexes pos total i).mp hi
      omega

/-- A read is right if and only if it starts at a sector or stays in one. -/
theorem diskstreamer_read_right_iff (d : Disk) (pos total : Nat) (out : Nat → UInt8)
    (h : pos + total < 0x80000000) :
    ReadsRange d pos total out ↔ pos % 512 = 0 ∨ pos % 512 + total ≤ 512 := by
  constructor
  · -- otherwise the first call reads index 512
    intro hr
    obtain ⟨l, hrun, hin⟩ := hr.inBuffer
    by_contra hnot
    have h512 : (512 : Int) ∈ l := by
      cases hrun with
      | last _ _ hle => exact (mem_readIndexes pos total 512).mpr (by omega)
      | next _ _ rest hgt hrest =>
        exact List.mem_append_left _ ((mem_readIndexes pos 512 512).mpr (by omega))
    have := hin 512 h512
    omega
  · intro hok
    have hread := diskstreamer_read_spec d pos out total (by omega) hok
    rw [i32_of_lt _ (by omega) (by omega)] at hread
    have hrun : ∃ l, ReadRun pos total l ∧ ∀ i ∈ l, 0 ≤ i ∧ i < 512 := by
      rcases hok with h0 | hone
      · exact readRun_aligned total pos total (by omega) h h0
      · refine ⟨_, .last pos total (by omega), ?_⟩
        intro i hi
        have := (mem_readIndexes pos total i).mp hi
        omega
    refine ⟨by rw [hread], ?_, by rw [hread], hrun, total / 512 + 1, ?_⟩
    · intro i hi
      rw [hread]
      exact if_pos hi
    · intro fuel hfuel
      exact (diskstreamer_read_rec_spec fuel d pos out total (by omega) (by omega) hok).trans
        (diskstreamer_read_spec d pos out total (by omega) hok).symm

/-- A disk where every byte of sector `i` is `i`. -/
def numbered : Disk := ⟨fun i _ => UInt8.ofNat i, [], fun _ => 0⟩

theorem numbered_read : ReadsRange numbered 512 1024 fun _ => 0 :=
  (diskstreamer_read_right_iff numbered 512 1024 (fun _ => 0) (by decide)).mpr (by decide)

/-- Two bytes across the end of a sector: the second one comes from behind the buffer. -/
theorem numbered_overrun : (diskstreamer_read numbered ⟨511, 0⟩ (fun _ => 7) 2).2.1 1 = 0 ∧
    cellAt numbered.sector 512 = 1 ∧ ¬ ReadsRange numbered 511 2 fun _ => 7 := by
  have hbyte : (diskstreamer_read numbered ⟨511, 0⟩ (fun _ => 7) 2).2.1 1 = 0 := by decide
  have hcell : cellAt numbered.sector 512 = 1 := by decide
  refine ⟨hbyte, hcell, ?_⟩
  intro hr
  have hbytes := hr.bytes 1 (by decide)
  exact absurd (hbyte.symm.trans (hbytes.trans hcell)) (by decide)

theorem sectorRoom_eq (pos : Nat) : sectorRoom pos = 512 - pos % 512 := by
  unfold sectorRoom
  rw [Int.tmod_eq_emod_of_nonneg (by omega)]
  omega

theorem copy_inBounds (pos first len total : Nat) (h : pos % 512 + len ≤ 512) (hin : first + len ≤ total) :
    SectorCopy.InBounds ⟨(pos : Int).tmod 512, first, len⟩ total := by
  rw [Int.tmod_eq_emod_of_nonneg (by omega)]
  exact ⟨by dsimp only; omega, by dsimp only; omega, hin⟩

theorem writeRun_inBounds (n pos total first : Nat) (hn : total ≤ n) (h : pos + total < 0x80000000) :
    ∃ l, WriteRun pos total first l ∧ ∀ c ∈ l, c.InBounds (first + total) := by
  induction n generalizing pos total first with
  | zero =>
    have hroom := sectorRoom_eq pos
    refine ⟨_, .last pos total first (by omega), ?_⟩
    rintro c (_ | ⟨_, ⟨⟩⟩)
    exact copy_inBounds pos first total _ (by omega) (Nat.le_refl _)
  | succ n ih =>
    have hroom := sectorRoom_eq pos
    by_cases hgt : total > sectorRoom pos
    · obtain ⟨m, hm⟩ : ∃ m, sectorRoom pos = m := ⟨_, rfl⟩
      rw [hm] at hroom hgt
      obtain ⟨l, hl, hin⟩ := ih (pos + m) (total - m) (first + m) (by omega) (by omega)
      refine ⟨_, .next pos total first l (by omega) ?_, ?_⟩
      · rw [hm, i32_of_lt _ (by omega) (by omega)]
        exact_mod_cast hl
      · rintro c (_ | ⟨_, hc⟩)
        · exact copy_inBounds pos first _ _ (by omega) (by omega)
        · have := hin c hc
          rwa [show first + m + (total - m) = first + total by omega] at this
    · refine ⟨_, .last pos total first hgt, ?_⟩
      rintro c (_ | ⟨_, ⟨⟩⟩)
      exact copy_inBounds pos first total _ (by omega) (Nat.le_refl _)

/-- The recursion makes the calls of its run, and no fuel beyond them is used. -/
theorem writeRun_fuel (pos : Int) (total first : Nat) (l : List SectorCopy) (h : WriteRun pos total first l)
    (d : Disk) (inp : Nat → UInt8) (m n : Nat) (hm : l.length ≤ m) (hn : l.length ≤ n) :
    diskstreamer_write_rec m d ⟨pos, 0⟩ inp total = diskstreamer_write_rec n d ⟨pos, 0⟩ inp total := by
  induction h generalizing d inp m n with
  | last pos total first hle =>
    obtain ⟨m, rfl⟩ : ∃ m', m = m' + 1 := ⟨m - 1, by rw [List.length_singleton] at hm; omega⟩
    obtain ⟨n, rfl⟩ : ∃ n', n = n' + 1 := ⟨n - 1, by rw [List.length_singleton] at hn; omega⟩
    unfold sectorRoom at hle
    rw [diskstreamer_write_rec, diskstreamer_write_rec]
    simp only [if_neg hle, gt_iff_lt, lt_self_iff_false, if_false]
  | next pos total first l hgt rest ih =>
    obtain ⟨m, rfl⟩ : ∃ m', m = m' + 1 := ⟨m - 1, by rw [List.length_cons] at hm; omega⟩
    obtain ⟨n, rfl⟩ : ∃ n', n = n' + 1 := ⟨n - 1, by rw [List.length_cons] at hn; omega⟩
    rw [List.length_cons] at hm hn
    unfold sectorRoom at hgt ih
    rw [diskstreamer_write_rec, diskstreamer_write_rec]
    simp only [if_pos hgt, disk_read_block, disk_write_block, ne_eq, not_true_eq_false, if_false,
      lt_self_iff_false]
    exact ih _ _ m n (by omega) (by omega)

theorem writeRun_length (n pos total first : Nat) (l : List SectorCopy) (h : WriteRun pos total first l)
    (hn : total ≤ n) (hlt : pos + total < 0x80000000) : l.length ≤ n + 1 := by
  induction n generalizing pos total first l with
  | zero =>
    cases h with
    | last _ _ _ hle => simp
    | next _ _ _ l hgt rest => omega
  | succ n ih =>
    cases h with
    | last _ _ _ hle => simp
    | next _ _ _ l hgt rest =>
      have hroom := sectorRoom_eq pos
      rw [i32_of_lt _ (by omega) (by omega)] at rest
      have := ih (pos + sectorRoom pos) (total - sectorRoom pos) (first + sectorRoom pos) l (by exact_mod_cast rest)
        (by omega) (by omega)
      rw [List.length_cons]
      omega

/-- A write is an exact splice, at any position and of any length. -/
theorem diskstreamer_write_splices (d : Disk) (pos total : Nat) (inp : Nat → UInt8)
    (h : pos + total < 0x80000000) : WritesRange d pos total inp := by
  obtain ⟨e, stream, heq, hstream, hsec, -⟩ :=
    diskstreamer_write_spec (fun _ => True) d pos inp total (by omega) fun _ _ _ => trivial
  rw [i32_of_lt _ (by omega) (by omega)] at hstream
  obtain ⟨l, hrun, hin⟩ := writeRun_inBounds total pos total 0 (Nat.le_refl _) h
  rw [Nat.zero_add] at hin
  refine ⟨by rw [heq], ?_, ?_, by rw [heq, hstream], ⟨l, hrun, hin⟩, l.length, ?_⟩
  · intro a h1 h2
    rw [heq, hsec, cellAt_spliced]
    exact if_pos ⟨h1, h2⟩
  · intro a ha
    rw [heq, hsec, cellAt_spliced]
    exact if_neg ha
  · intro fuel hfuel
    have hlen := writeRun_length total pos total 0 l hrun (Nat.le_refl _) h
    exact writeRun_fuel pos total 0 l hrun d inp fuel (total + 1) hfuel hlen

theorem numbered_write : WritesRange numbered 511 514 fun _ => 9 :=
  diskstreamer_write_splices numbered 511 514 (fun _ => 9) (by decide)

end PeachOS.Streamer
