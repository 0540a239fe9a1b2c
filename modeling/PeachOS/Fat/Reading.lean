import PeachOS.Fat.Mount
import PeachOS.Spec.Reading
import Mathlib.Data.Nat.ModEq
import Mathlib.Tactic.Ring

/-!
# Reading

The reader walks along the FAT for every piece that it reads. `fat16_read_internal_from_stream` is the recursion
over any stream.
-/

open PeachOS.Lib PeachOS.Streamer

namespace PeachOS.Fat

variable {p : FatPrivate} {d : Disk} {first : Nat} {l : List Nat}

/-! ## The walk -/

theorem fatTable_lt (p : FatPrivate) (d : Disk) (c : Nat) : fatTable p d c < 65536 := le16_lt _

theorem get_fat_entry_table (p : FatPrivate) (d : Disk) (c : Nat) (hc : c < 65536) :
    fat16_get_fat_entry p d c = fatTable p d c := by
  have := p.header.reserved_sectors.toNat_lt
  exact get_fat_entry_at p d c (by omega)

theorem blocked_succ (p : FatPrivate) (d : Disk) (c k : Nat) :
    Blocked p d c (k + 1) ↔ Refused (fatTable p d c) ∨ Blocked p d (fatTable p d c) k := by
  constructor
  · rintro ⟨j, h1, hk, hj⟩
    obtain ⟨j, rfl⟩ : ∃ i, j = i + 1 := ⟨j - 1, by omega⟩
    rw [Function.iterate_succ_apply] at hj
    rcases Nat.eq_zero_or_pos j with rfl | hpos
    · exact Or.inl hj
    · exact Or.inr ⟨j, hpos, by omega, hj⟩
  · rintro (hr | ⟨j, h1, hk, hj⟩)
    · exact ⟨1, by omega, by omega, hr⟩
    · exact ⟨j + 1, by omega, by omega, by rwa [Function.iterate_succ_apply]⟩

theorem not_blocked_zero (p : FatPrivate) (d : Disk) (c : Nat) : ¬ Blocked p d c 0 := by
  rintro ⟨j, h1, h0, -⟩
  omega

theorem cluster_loop_spec (p : FatPrivate) (d : Disk) (k c : Nat) (hc : c < 65536) :
    (Blocked p d c k → fat16_get_cluster_for_offset_loop p d k c = - EIO) ∧
    (¬ Blocked p d c k → fat16_get_cluster_for_offset_loop p d k c = ((fatTable p d)^[k] c : Nat)) := by
  induction k generalizing c with
  | zero => exact ⟨fun h => absurd h (not_blocked_zero p d c), fun _ => rfl⟩
  | succ k ih =>
    rw [blocked_succ, Function.iterate_succ_apply, fat16_get_cluster_for_offset_loop,
      get_fat_entry_table p d c hc]
    obtain ⟨hblocked, hfree⟩ := ih (fatTable p d c) (fatTable_lt p d c)
    by_cases hr : Refused (fatTable p d c)
    · refine ⟨fun _ => ?_, fun h => absurd (Or.inl hr) h⟩
      unfold Refused at hr
      split
      · rfl
      · rw [if_pos (by omega)]
    · have hgo : ¬ ((fatTable p d c : Int) = 0xFF8 ∨ (fatTable p d c : Int) = 0xFFF) := by
        unfold Refused at hr
        omega
      have hgo' : ¬ ((fatTable p d c : Int) = 0xFF7 ∨ (fatTable p d c : Int) = 0xFF0 ∨
          (fatTable p d c : Int) = 0xFF6 ∨ (fatTable p d c : Int) = 0x00) := by
        unfold Refused at hr
        omega
      rw [if_neg hgo, if_neg hgo']
      exact ⟨fun h => hblocked (h.resolve_left hr), fun h => hfree fun hb => h (Or.inr hb)⟩

theorem cluster_for_offset_eq (p : FatPrivate) (d : Disk) (c offset : Nat) :
    fat16_get_cluster_for_offset p d c offset =
      fat16_get_cluster_for_offset_loop p d (offset / fat16_cluster_size p) c := by
  unfold fat16_get_cluster_for_offset fat16_cluster_size
  dsimp only
  rw [Int.tdiv_eq_ediv_of_nonneg (by omega)]
  congr 1

theorem chain_first_lt (h : FileChain p d first l) : first < 65536 := by
  have := chain_ok _ _ h first (chain_mem_first _ _ h)
  unfold Link at this
  omega

/-- The reader agrees with the chain exactly if a refused value stops it behind the end, and none stops it
before. -/
theorem walk_agrees_iff (p : FatPrivate) (d : Disk) (first : Nat) (l : List Nat) (h : FileChain p d first l)
    (offset : Nat) : WalkAgrees p d first l offset ↔
      if offset / fat16_cluster_size p < l.length then ¬ Blocked p d first (offset / fat16_cluster_size p)
      else Blocked p d first (offset / fat16_cluster_size p) := by
  unfold WalkAgrees
  rw [cluster_for_offset_eq]
  generalize offset / fat16_cluster_size p = k
  obtain ⟨hblocked, hfree⟩ := cluster_loop_spec p d k first (chain_first_lt h)
  by_cases hk : k < l.length
  · rw [if_pos hk, chain_iterate first l h k hk]
    dsimp only
    refine ⟨?_, hfree⟩
    intro heq hb
    have hneg := hblocked hb
    rw [heq] at hneg
    unfold EIO at hneg
    omega
  · rw [if_neg hk, List.getElem?_eq_none (by omega)]
    dsimp only
    constructor
    · intro hlt
      by_contra hb
      rw [hfree hb] at hlt
      omega
    · intro hb
      rw [hblocked hb]
      decide

theorem sample_table : Eoc (fatTable sample.priv sample.disk 2) ∧
    fat16_get_cluster_for_offset sample.priv sample.disk 2 512 = 0xFFFF := by
  decide +kernel

theorem sample_fileChain : FileChain sample.priv sample.disk 2 [2] := .last 2 (by decide) sample_table.1

theorem sample_walk : WalkAgrees sample.priv sample.disk 2 [2] 511 :=
  (walk_agrees_iff sample.priv sample.disk 2 [2] sample_fileChain 511).mpr (by
    rw [sample_size]
    exact not_blocked_zero _ _ _)

/-- Behind the one cluster of the file the reader goes on with the end mark as a cluster. -/
theorem sample_past_end : fat16_get_cluster_for_offset sample.priv sample.disk 2 512 = 0xFFFF ∧
    ¬ WalkAgrees sample.priv sample.disk 2 [2] 512 := by
  refine ⟨sample_table.2, ?_⟩
  unfold WalkAgrees
  rw [sample_size]
  intro hneg
  have hlt : fat16_get_cluster_for_offset sample.priv sample.disk 2 512 < 0 := hneg
  rw [sample_table.2] at hlt
  exact absurd hlt (by decide)

/-! ## Pieces -/

theorem read_internal_rec_eq (p : FatPrivate) (d : Disk) (cluster : Int) (fuel : Nat) (offset total : Int)
    (out : Nat → UInt8) : fat16_read_internal_rec p d cluster fuel offset total out =
      fat16_read_internal_from_stream diskstreamer_read p d cluster fuel offset total out := by
  induction fuel generalizing offset total out with
  | zero => rfl
  | succ fuel ih =>
    rw [fat16_read_internal_rec, fat16_read_internal_from_stream]
    simp only [ih]

/-- Where a stream reads the bytes of the disk. -/
def Delivers (read : Disk → DiskStream → (Nat → UInt8) → Int → Int × (Nat → UInt8) × DiskStream) (d : Disk)
    (pos n : Nat) : Prop :=
  ∀ out, ∃ stream, read d ⟨pos, 0⟩ out n = (0, readAt d.sector pos n out, stream)

theorem ideal_delivers (d : Disk) (pos n : Nat) : Delivers ideal_read d pos n := by
  intro out
  refine ⟨_, Prod.ext rfl (Prod.ext ?_ rfl)⟩
  funext i
  unfold ideal_read readAt
  simp only [Int.toNat_natCast, Nat.cast_lt]

theorem diskstreamer_delivers (d : Disk) (pos n : Nat) (hpos : pos + n ≤ 0x80000000)
    (hok : pos % 512 = 0 ∨ pos % 512 + n ≤ 512) : Delivers diskstreamer_read d pos n := by
  intro out
  exact ⟨_, diskstreamer_read_spec d pos out n hpos hok⟩

theorem readable_not_blocked (h : Readable p d first l) (k : Nat) (hk : k < l.length) : ¬ Blocked p d first k := by
  rintro ⟨j, h1, hj, hr⟩
  have hnode := chain_iterate first l h.chain j (by omega)
  exact h.avoids _ (List.mem_of_getElem? hnode) hr

theorem readable_cluster (h : Readable p d first l) (offset : Nat)
    (hk : offset / fat16_cluster_size p < l.length) :
    ∃ c ∈ l, fat16_get_cluster_for_offset p d first offset = c ∧ l.getD (offset / fat16_cluster_size p) 0 = c := by
  have hnode := chain_iterate first l h.chain _ hk
  refine ⟨_, List.mem_of_getElem? hnode, ?_, by rw [List.getD_eq_getElem?_getD, hnode]; rfl⟩
  rw [cluster_for_offset_eq]
  exact (cluster_loop_spec p d _ first (chain_first_lt h.chain)).2 (readable_not_blocked h _ hk)

theorem starting_pos_eq (h : InDisk p l) (c : Nat) (hc : c ∈ l) (r : Nat) (hr : r < fat16_cluster_size p) :
    i32 (fat16_cluster_to_sector p c * 512 + r) = (((clusterByte p c).toNat + r : Nat) : Int) := by
  have h0 := h.start c hc
  have h1 := h.stop c hc
  have hsec : fat16_cluster_to_sector p c * 512 = clusterByte p c := by
    unfold fat16_cluster_to_sector clusterByte at *
    rw [i32_of_lt _ (by omega) (by omega)]
  rw [hsec, i32_of_lt _ (by omega) (by omega)]
  omega

section Pieces

variable {read : Disk → DiskStream → (Nat → UInt8) → Int → Int × (Nat → UInt8) × DiskStream}

/-- The position on the disk of a piece that starts at an offset of the file. -/
def piecePos (p : FatPrivate) (l : List Nat) (offset : Nat) : Nat :=
  (clusterByte p (l.getD (offset / fat16_cluster_size p) 0)).toNat + offset % fat16_cluster_size p

theorem from_stream_succ (h : Readable p d first l) (fuel offset total : Nat) (out : Nat → UInt8)
    (hk : offset / fat16_cluster_size p < l.length)
    (hread : Delivers read d (piecePos p l offset) (min total (fat16_cluster_size p))) :
    fat16_read_internal_from_stream read p d first (fuel + 1) offset total out =
      if total ≤ fat16_cluster_size p then (0, readAt d.sector (piecePos p l offset) total out)
      else
        let out' := readAt d.sector (piecePos p l offset) (fat16_cluster_size p) out
        let rest := fat16_read_internal_from_stream read p d first fuel
          (i32 ((offset + fat16_cluster_size p : Nat) : Int)) ((total - fat16_cluster_size p : Nat) : Int)
          (fun i => out' (i + fat16_cluster_size p))
        (rest.1, fun i => if i < fat16_cluster_size p then out' i else rest.2 (i - fat16_cluster_size p)) := by
  obtain ⟨c, hc, hwalk, hget⟩ := readable_cluster h offset hk
  have hsize := h.inDisk.size
  have hmod := Nat.mod_lt offset hsize
  have hpos := starting_pos_eq h.inDisk c hc _ hmod
  have hcs : (p.header.sectors_per_cluster.toNat : Int) * 512 = (fat16_cluster_size p : Int) := by
    unfold fat16_cluster_size
    omega
  have hr : (offset : Int).tmod (fat16_cluster_size p : Int) = ((offset % fat16_cluster_size p : Nat) : Int) := by
    rw [Int.tmod_eq_emod_of_nonneg (by omega)]
    rfl
  have hpiece : (clusterByte p c).toNat + offset % fat16_cluster_size p = piecePos p l offset := by
    unfold piecePos
    rw [hget]
  have htake : (if (total : Int) > (fat16_cluster_size p : Int) then (fat16_cluster_size p : Int) else total) =
      ((min total (fat16_cluster_size p) : Nat) : Int) := by
    split <;> omega
  obtain ⟨stream, hstream⟩ := hread out
  rw [fat16_read_internal_from_stream]
  simp only [hwalk, hcs, hr, hpos, hpiece, htake, diskstreamer_seek, diskstreamer_new, hstream]
  rw [if_neg (by omega), if_neg (by decide), if_neg (by decide)]
  split
  · rename_i hmore
    rw [if_neg (by omega), Nat.min_eq_right (by omega), Int.toNat_natCast, ← Int.natCast_add,
      ← Int.natCast_sub (by omega)]
  · rw [if_pos (by omega), Nat.min_eq_left (by omega)]

theorem clusterByte_add (p : FatPrivate) (c k : Nat) :
    clusterByte p (c + k) = clusterByte p c + ((k * fat16_cluster_size p : Nat) : Int) := by
  unfold clusterByte fat16_cluster_size
  push_cast
  ring

theorem inDisk_length (h : InDisk p l) (hd : l.Nodup) : l.length * fat16_cluster_size p ≤ 0x80000000 := by
  have hsize := h.size
  rw [← Nat.le_div_iff_mul_le hsize]
  by_cases hne : ∃ c, c ∈ l
  · have hmin := Nat.find_spec hne
    refine nodup_length_le l (Nat.find hne) _ hd fun c hc => ?_
    have hle : Nat.find hne ≤ c := Nat.find_min' hne hc
    obtain ⟨k, rfl⟩ := Nat.exists_eq_add_of_le hle
    have hstart := h.start _ hmin
    have hstop := h.stop _ hc
    rw [clusterByte_add] at hstop
    have hk : (k + 1) * fat16_cluster_size p ≤ 0x80000000 := by
      rw [Nat.add_mul]
      omega
    rw [← Nat.le_div_iff_mul_le hsize] at hk
    omega
  · rw [List.eq_nil_iff_forall_not_mem.mpr fun c hc => hne ⟨c, hc⟩]
    exact Nat.zero_le _

theorem pieceByte_head (p : FatPrivate) (d : Disk) (l : List Nat) (offset i : Nat) (hi : i < fat16_cluster_size p) :
    cellAt d.sector (piecePos p l offset + i) = pieceByte p d l offset i := by
  unfold piecePos pieceByte
  dsimp only
  rw [Nat.div_eq_of_lt hi, Nat.mod_eq_of_lt hi, Nat.add_zero, Nat.add_assoc]

theorem pieceByte_tail (p : FatPrivate) (d : Disk) (l : List Nat) (offset i : Nat) (hsize : 0 < fat16_cluster_size p) :
    pieceByte p d l (offset + fat16_cluster_size p) i = pieceByte p d l offset (i + fat16_cluster_size p) := by
  unfold pieceByte
  dsimp only
  rw [Nat.add_div_right _ hsize, Nat.add_div_right _ hsize, Nat.add_mod_right, Nat.add_mod_right,
    Nat.succ_add_eq_add_succ]

theorem from_stream_spec (h : Readable p d first l) (fuel offset total : Nat) (out : Nat → UInt8)
    (hfit : offset + total ≤ l.length * fat16_cluster_size p) (hpos : 0 < total)
    (hfuel : total ≤ fuel * fat16_cluster_size p)
    (hread : ∀ m, m * fat16_cluster_size p < total →
      Delivers read d (piecePos p l (offset + m * fat16_cluster_size p))
        (min (total - m * fat16_cluster_size p) (fat16_cluster_size p))) :
    fat16_read_internal_from_stream read p d first fuel offset total out =
      (0, fun i => if i < total then pieceByte p d l offset i else out i) := by
  have hsize := h.inDisk.size
  have hbelow := inDisk_length h.inDisk (chain_nodup _ _ h.chain)
  induction fuel generalizing offset total out with
  | zero => omega
  | succ fuel ih =>
    have hk : offset / fat16_cluster_size p < l.length := Nat.div_lt_of_lt_mul (by rw [Nat.mul_comm]; omega)
    have hfirst := hread 0 (by omega)
    rw [Nat.zero_mul, Nat.add_zero, Nat.sub_zero] at hfirst
    rw [from_stream_succ h fuel offset total out hk hfirst]
    by_cases hle : total ≤ fat16_cluster_size p
    · rw [if_pos hle]
      refine Prod.ext rfl (funext fun i => ?_)
      unfold readAt
      dsimp only
      split
      · exact pieceByte_head p d l offset i (by omega)
      · rfl
    · rw [Nat.succ_mul] at hfuel
      have hrest := ih (offset + fat16_cluster_size p) (total - fat16_cluster_size p)
        (fun i => readAt d.sector (piecePos p l offset) (fat16_cluster_size p) out (i + fat16_cluster_size p))
        (by omega) (by omega) (by omega) (by
          intro m hm
          have hnext := hread (m + 1) (by rw [Nat.succ_mul]; omega)
          rw [Nat.succ_mul, Nat.add_comm (m * _), ← Nat.add_assoc, ← Nat.sub_sub] at hnext
          exact hnext)
      rw [if_neg hle, i32_of_lt _ (by omega) (by omega)]
      dsimp only
      rw [hrest]
      refine Prod.ext rfl (funext fun i => ?_)
      unfold readAt
      dsimp only
      by_cases hi : i < fat16_cluster_size p
      · rw [if_pos hi, if_pos hi, if_pos (by omega)]
        exact pieceByte_head p d l offset i hi
      · rw [if_neg hi, pieceByte_tail _ _ _ _ _ hsize, Nat.sub_add_cancel (by omega), if_neg hi]
        simp only [show i - fat16_cluster_size p < total - fat16_cluster_size p ↔ i < total by omega]

end Pieces

/-! ## Seams -/

theorem pieceByte_inside (p : FatPrivate) (d : Disk) (l : List Nat) (offset i : Nat)
    (hi : offset % fat16_cluster_size p + i % fat16_cluster_size p < fat16_cluster_size p) :
    pieceByte p d l offset i = chainByte p d l (offset + i) := by
  unfold pieceByte chainByte
  dsimp only
  rw [Nat.add_div_eq_of_add_mod_lt hi, Nat.add_mod_of_add_mod_lt hi]

theorem pieceByte_outside (p : FatPrivate) (d : Disk) (l : List Nat) (offset i j : Nat)
    (hi : offset % fat16_cluster_size p + i % fat16_cluster_size p = fat16_cluster_size p + j) :
    pieceByte p d l offset i = cellAt d.sector
      ((clusterByte p (l.getD (offset / fat16_cluster_size p + i / fat16_cluster_size p) 0)).toNat +
        fat16_cluster_size p + j) := by
  unfold pieceByte
  dsimp only
  rw [hi, Nat.add_assoc]

theorem chainByte_outside (p : FatPrivate) (d : Disk) (l : List Nat) (offset i j : Nat)
    (hsize : 0 < fat16_cluster_size p)
    (hi : offset % fat16_cluster_size p + i % fat16_cluster_size p = fat16_cluster_size p + j) :
    chainByte p d l (offset + i) = cellAt d.sector
      ((clusterByte p (l.getD (offset / fat16_cluster_size p + i / fat16_cluster_size p + 1) 0)).toNat + j) := by
  have hmod := Nat.add_mod_add_of_le_add_mod (a := offset) (b := i) (c := fat16_cluster_size p) (by omega)
  unfold chainByte
  rw [Nat.add_div_eq_of_le_mod_add_mod (by omega) hsize]
  congr 2
  omega

theorem seamless_iff (p : FatPrivate) (d : Disk) (l : List Nat) (offset total : Nat)
    (hsize : 0 < fat16_cluster_size p) :
    Seamless p d l offset total ↔ ∀ i < total, pieceByte p d l offset i = chainByte p d l (offset + i) := by
  have hr := Nat.mod_lt offset hsize
  constructor
  · intro h i hi
    by_cases hin : offset % fat16_cluster_size p + i % fat16_cluster_size p < fat16_cluster_size p
    · exact pieceByte_inside p d l offset i hin
    · obtain ⟨j, hj⟩ := Nat.exists_eq_add_of_le (Nat.le_of_not_lt hin)
      have hi' := Nat.div_add_mod' i (fat16_cluster_size p)
      have := Nat.mod_lt i hsize
      rw [pieceByte_outside p d l offset i j hj, chainByte_outside p d l offset i j hsize hj]
      exact h _ j (by omega) (by omega)
  · intro h m j hj hlt
    have hdiv : (m * fat16_cluster_size p + (fat16_cluster_size p - offset % fat16_cluster_size p) + j) /
        fat16_cluster_size p = m := by
      rw [Nat.add_assoc, Nat.mul_comm, Nat.mul_add_div hsize, Nat.div_eq_of_lt (by omega), Nat.add_zero]
    have hmod : (m * fat16_cluster_size p + (fat16_cluster_size p - offset % fat16_cluster_size p) + j) %
        fat16_cluster_size p = fat16_cluster_size p - offset % fat16_cluster_size p + j := by
      rw [Nat.add_assoc, Nat.mul_comm, Nat.mul_add_mod, Nat.mod_eq_of_lt (by omega)]
    have hi := h _ hlt
    rw [pieceByte_outside p d l offset _ j (by omega), chainByte_outside p d l offset _ j hsize (by omega), hdiv] at hi
    exact hi

theorem seamless_aligned (p : FatPrivate) (d : Disk) (l : List Nat) (offset total : Nat)
    (h : offset % fat16_cluster_size p = 0) : Seamless p d l offset total := by
  intro m j hj
  omega

theorem ideal_spec (h : Readable p d first l) (fuel offset total : Nat) (out : Nat → UInt8)
    (hfit : offset + total ≤ l.length * fat16_cluster_size p) (hpos : 0 < total) (hfuel : total ≤ fuel) :
    fat16_read_ideal p d fuel first offset total out =
      (0, fun i => if i < total then pieceByte p d l offset i else out i) := by
  have hsize := h.inDisk.size
  exact from_stream_spec h fuel offset total out hfit hpos
    (hfuel.trans (Nat.le_mul_of_pos_right _ hsize)) fun m _ => ideal_delivers d _ _

/-- A read delivers the bytes of the file exactly if it has no visible seams. -/
theorem reads_file_iff (p : FatPrivate) (d : Disk) (first : Nat) (l : List Nat) (h : Readable p d first l)
    (offset total : Nat) (hpos : 1 ≤ total) (hfit : offset + total ≤ l.length * fat16_cluster_size p) :
    ReadsFile p d first l offset total ↔ Seamless p d l offset total := by
  rw [seamless_iff p d l offset total h.inDisk.size]
  constructor
  · rintro ⟨n, hn⟩ i hi
    obtain ⟨-, hbytes⟩ := hn (max n total) (by omega) (fun _ => 0)
    have := hbytes i hi
    rw [ideal_spec h _ offset total _ hfit hpos (by omega)] at this
    dsimp only at this
    rwa [if_pos hi] at this
  · intro hseam
    refine ⟨total, fun fuel hfuel out => ?_⟩
    rw [ideal_spec h fuel offset total out hfit hpos hfuel]
    refine ⟨rfl, fun i hi => ?_⟩
    dsimp only
    rw [if_pos hi, hseam i hi]

/-- The small disk with a file in clusters 2 and 4. Every byte of a cluster is the number of the cluster. -/
def fragmented : Disk where
  sector i j :=
    if i = 1 ∨ i = 2 then bytes16 (if j / 2 = 2 then 4 else if j / 2 = 4 then 0xFFFF else sampleFat (j / 2)) (j % 2)
    else if i < 4 then sampleDisk.sector i j
    else .ofNat (i - 2)
  writes := []
  stack := fun _ => 0

theorem sample_geometry : sample.priv.header.reserved_sectors = 1 ∧ sample.priv.header.sectors_per_cluster = 1 ∧
    sample.priv.root_directory.ending_sector_pos = 4 := by
  decide +kernel

theorem sample_clusterByte (c : Nat) : clusterByte sample.priv c = (4 + ((c : Int) - 2) * 1) * 512 := by
  unfold clusterByte
  rw [sample_geometry.2.1, sample_geometry.2.2]
  rfl

theorem sample_fatTable (d : Disk) (c : Nat) :
    fatTable sample.priv d c = le16 fun i => cellAt d.sector (1 * 512 + 2 * c + i) := by
  unfold fatTable
  rw [sample_geometry.1]
  rfl

theorem fragmented_readable : Readable sample.priv fragmented 2 [2, 4] where
  chain := .cons 2 [4] (by decide) (by decide) (by
    rw [sample_fatTable]
    refine .last 4 (by decide) ?_
    rw [sample_fatTable]
    decide)
  avoids := by decide
  inDisk := by
    refine ⟨by rw [sample_size]; decide, ?_, ?_⟩
    · simp [sample_clusterByte]
    · simp [sample_clusterByte, sample_size]

theorem fragmented_byte (q : Nat) : chainByte sample.priv fragmented [2, 4] q =
    cellAt fragmented.sector (((4 + ((([2, 4].getD (q / 512) 0 : Nat) : Int) - 2) * 1) * 512).toNat + q % 512) := by
  unfold chainByte
  rw [sample_size, sample_clusterByte]

theorem fragmented_aligned : ReadsFile sample.priv fragmented 2 [2, 4] 0 1024 :=
  (reads_file_iff sample.priv fragmented 2 [2, 4] fragmented_readable 0 1024 (by decide)
    (by rw [sample_size]; decide)).mpr (seamless_aligned _ _ _ _ _ (Nat.zero_mod _))

/-- A read of one cluster size from offset 1 takes its last byte from cluster 3, which is not a cluster of the
file. -/
theorem fragmented_seam : pieceByte sample.priv fragmented [2, 4] 1 511 = 3 ∧
    chainByte sample.priv fragmented [2, 4] 512 = 4 ∧ ¬ ReadsFile sample.priv fragmented 2 [2, 4] 1 512 := by
  have hpiece : pieceByte sample.priv fragmented [2, 4] 1 511 = 3 := by
    unfold pieceByte
    dsimp only
    rw [sample_size, sample_clusterByte]
    decide
  have hfile : chainByte sample.priv fragmented [2, 4] 512 = 4 := by
    rw [fragmented_byte]
    decide
  refine ⟨hpiece, hfile, ?_⟩
  rintro ⟨n, hn⟩
  have hbyte := (hn (max n 512) (by omega) (fun _ => 0)).2 511 (by decide)
  rw [ideal_spec fragmented_readable _ 1 512 _ (by rw [sample_size]; decide) (by decide) (by omega)] at hbyte
  dsimp only at hbyte
  rw [if_pos (by decide), hpiece, hfile] at hbyte
  exact absurd hbyte (by decide)

end PeachOS.Fat
