import PeachOS.Fat.Reading
import PeachOS.Spec.FileReads

/-!
# Reads of a file

A read of `n` bytes one by one walks along the chain for each of them. It stops at the first error, and at
nothing else.
-/

open PeachOS.Lib PeachOS.Streamer

namespace PeachOS.Fat

variable {v : Volume} {item : FatDirectoryItem} {l : List Nat}

/-! ## One byte -/

theorem i32_nat_succ (q : Nat) : i32 (i32 (q : Int) + 1) = i32 ((q + 1 : Nat) : Int) := by
  unfold i32
  rw [Int.bmod_add_bmod, Int.natCast_add, Int.natCast_one]

theorem diskstreamer_read_byte (d : Disk) (pos : Int) (out : Nat → UInt8) :
    ∃ stream, diskstreamer_read d ⟨pos, 0⟩ out 1 = (0, fun i => if i = 0 then diskByte d pos else out i, stream) := by
  refine ⟨⟨i32 (pos + 1), 0⟩, ?_⟩
  have hone (i : Nat) : (i : Int) < 1 ↔ i = 0 := by omega
  unfold diskstreamer_read
  rw [diskstreamer_read_rec]
  simp only [disk_read_block, ne_eq, not_true_eq_false, if_false, Int.lt_irrefl]
  rw [if_neg (by decide), if_neg (by decide)]
  refine Prod.ext rfl (Prod.ext (funext fun i => ?_) rfl)
  simp only [hone]
  split
  · rename_i hi
    rw [hi, Int.natCast_zero, Int.add_zero]
    rfl
  · rfl

theorem read_rec_byte (v : Volume) (item : FatDirectoryItem) (hsize : 0 < fat16_cluster_size v.priv) (fuel q : Nat)
    (out : Nat → UInt8) :
    fat16_read_internal_rec v.priv v.disk (i32 (fat16_get_first_cluster item)) (fuel + 1) (i32 q) 1 out =
      if reach v item q < 0 then (reach v item q, out)
      else (0, fun i => if i = 0 then diskByte v.disk (place v item q) else out i) := by
  obtain ⟨stream, hread⟩ := diskstreamer_read_byte v.disk (place v item q) out
  have hcs : (v.priv.header.sectors_per_cluster.toNat : Int) * 512 = (fat16_cluster_size v.priv : Int) := by
    unfold fat16_cluster_size
    omega
  have hwalk : fat16_get_cluster_for_offset v.priv v.disk (i32 (fat16_get_first_cluster item)) (i32 q) =
      reach v item q := rfl
  have hplace : i32 (fat16_cluster_to_sector v.priv (reach v item q) * 512 +
      (i32 q).tmod (fat16_cluster_size v.priv)) = place v item q := rfl
  rw [fat16_read_internal_rec]
  simp only [hcs, hwalk, hplace, diskstreamer_seek, diskstreamer_new]
  rw [if_neg (show ¬ (1 : Int) > fat16_cluster_size v.priv by omega), hread]
  simp

/-! ## Byte by byte -/

@[simp] theorem shown_eq_none (v : Volume) (item : FatDirectoryItem) (q : Nat) :
    shown v item q = none ↔ reach v item q < 0 := by
  unfold shown
  split <;> simp [*]

theorem shown_nonneg (v : Volume) (item : FatDirectoryItem) (q : Nat) (b : UInt8) (h : shown v item q = some b) :
    ¬ reach v item q < 0 := by
  intro hw
  rw [(shown_eq_none v item q).mpr hw] at h
  cases h

theorem shown_some (v : Volume) (item : FatDirectoryItem) (q : Nat) (b : UInt8) (h : shown v item q = some b) :
    diskByte v.disk (place v item q) = b := by
  unfold shown at h
  rw [if_neg (shown_nonneg v item q b h)] at h
  exact Option.some.inj h

section Seen

variable {found : Nat → Option UInt8}

theorem seen_ne_none (found : Nat → Option UInt8) (q i : Nat) :
    seen found q i ≠ none ↔ ∀ j ≤ i, found (q + j) ≠ none := by
  unfold seen
  split
  · rename_i h
    exact ⟨fun _ => h, fun _ => h i (Nat.le_refl i)⟩
  · rename_i h
    exact ⟨fun h' => absurd rfl h', fun h' => absurd h' h⟩

theorem seen_all (q i : Nat) (h : ∀ j ≤ i, found (q + j) ≠ none) : seen found q i = found (q + i) := if_pos h

@[simp] theorem seen_zero (found : Nat → Option UInt8) (q : Nat) : seen found q 0 = found q := by
  unfold seen
  simp only [Nat.le_zero_eq, forall_eq, Nat.add_zero]
  split
  · rfl
  · rename_i h
    exact (not_not.mp h).symm

theorem seen_none (q i : Nat) (h : found q = none) : seen found q i = none := by
  by_contra hsome
  exact (seen_ne_none found q i).mp hsome 0 (Nat.zero_le i) h

theorem seen_succ (q i : Nat) (h : found q ≠ none) : seen found q (i + 1) = seen found (q + 1) i := by
  have hall : (∀ j ≤ i + 1, found (q + j) ≠ none) ↔ ∀ j ≤ i, found (q + 1 + j) ≠ none := by
    simp only [Nat.add_right_comm q 1, Nat.add_assoc]
    constructor
    · intro hj j hle
      exact hj (j + 1) (by omega)
    · rintro hj (_ | j) hle
      · exact h
      · exact hj j (by omega)
  unfold seen
  simp only [hall, Nat.add_right_comm q 1, Nat.add_assoc]

theorem read_bytes_spec (read : Int → (Nat → UInt8) → Int × (Nat → UInt8))
    (hnone : ∀ q out, found q = none → (read (i32 (q : Nat)) out).1 < 0 ∧ (read (i32 (q : Nat)) out).2 = out)
    (hsome : ∀ q out b, found q = some b → read (i32 (q : Nat)) out = (0, fun i => if i = 0 then b else out i))
    (n q : Nat) (out : Nat → UInt8) :
    (fat16_read_loop_from read 1 n (i32 q) out).2 =
      (fun i => if i < n then (seen found q i).getD (out i) else out i) ∧
    ((fat16_read_loop_from read 1 n (i32 q) out).1 < 0 ↔ ∃ i < n, seen found q i = none) := by
  induction n generalizing q out with
  | zero => simp [fat16_read_loop_from]
  | succ n ih =>
    rw [fat16_read_loop_from]
    rcases hq : found q with _ | b
    · obtain ⟨hneg, hout⟩ := hnone q out hq
      dsimp only
      rw [if_pos hneg]
      refine ⟨?_, fun _ => ⟨0, by omega, by rw [seen_zero, hq]⟩, fun _ => hneg⟩
      funext i
      rw [seen_none q i hq, hout]
      simp
    · have hne : found q ≠ none := by simp [hq]
      rw [hsome q out b hq]
      obtain ⟨hout, hres⟩ := ih (q + 1) (fun i => (fun i => if i = 0 then b else out i) (i + 1))
      dsimp only
      rw [if_neg (by decide), Int.natCast_one, i32_nat_succ]
      refine ⟨?_, ?_⟩
      · rw [hout]
        funext i
        rcases i with _ | i
        · simp [hq]
        · simp [seen_succ q i hne]
      · rw [hres]
        constructor
        · rintro ⟨i, hi, hn⟩
          exact ⟨i + 1, by omega, by rw [seen_succ q i hne, hn]⟩
        · rintro ⟨_ | i, hi, hn⟩
          · rw [seen_zero] at hn
            exact absurd hn hne
          · exact ⟨i, by omega, by rw [← seen_succ q i hne, hn]⟩

end Seen

theorem read_loop_from (v : Volume) (item : FatDirectoryItem) (size : Nat)
    (read : Int → (Nat → UInt8) → Int × (Nat → UInt8))
    (hread : ∀ offset out, fat16_read_internal v.priv v.disk (i32 (fat16_get_first_cluster item)) offset (i32 size)
      out = read offset out) (n : Nat) (offset : Int) (out : Nat → UInt8) :
    fat16_read_loop v item size n offset out = fat16_read_loop_from read size n offset out := by
  -- the definitions are opened by hand, so that nothing evaluates the read of a piece
  delta fat16_read_loop fat16_read_loop._f
  simp -iota only [hread]
  delta fat16_read_loop_from fat16_read_loop_from._f
  rfl

theorem read_loop_spec (v : Volume) (item : FatDirectoryItem) (hsize : 0 < fat16_cluster_size v.priv) (n q : Nat)
    (out : Nat → UInt8) :
    (fat16_read_loop v item 1 n (i32 q) out).2 =
      (fun i => if i < n then (seen (shown v item) q i).getD (out i) else out i) ∧
    ((fat16_read_loop v item 1 n (i32 q) out).1 < 0 ↔ ∃ i < n, seen (shown v item) q i = none) := by
  have hone : i32 ((1 : Nat) : Int) = 1 := by decide
  obtain ⟨read, hread⟩ : ∃ read : Int → (Nat → UInt8) → Int × (Nat → UInt8), ∀ offset out,
    fat16_read_internal v.priv v.disk (i32 (fat16_get_first_cluster item)) offset (i32 (1 : Nat)) out =
      read offset out := ⟨_, fun _ _ => rfl⟩
  have hbyte : ∀ q out, read (i32 (q : Nat)) out = if reach v item q < 0 then (reach v item q, out)
      else (0, fun i => if i = 0 then diskByte v.disk (place v item q) else out i) := by
    intro q out
    rw [← hread, hone]
    unfold fat16_read_internal
    rw [read_rec_byte v item hsize]
  rw [read_loop_from v item 1 read hread]
  refine read_bytes_spec read ?_ ?_ n q out
  · intro q out hq
    have hw := (shown_eq_none v item q).mp hq
    rw [hbyte, if_pos hw]
    simp only [hw, and_self]
  · intro q out b hq
    rw [hbyte, shown_some v item q b hq]
    exact if_neg (shown_nonneg v item q b hq)

/-! ## Files that can be read -/

theorem diskByte_cell (d : Disk) (pos : Nat) (h : pos < 0x80000000) : diskByte d pos = cellAt d.sector pos := by
  have hcell := bufAt_sector d pos 0 (by omega)
  unfold diskByte
  rw [sector_of_pos pos (by omega), offset_of_pos]
  exact hcell

theorem shown_readable (h : Readable v.priv v.disk (fat16_get_first_cluster item) l) (q : Nat)
    (hq : q < l.length * fat16_cluster_size v.priv) : shown v item q = some (chainByte v.priv v.disk l q) := by
  have hsize := h.inDisk.size
  have hbelow := inDisk_length h.inDisk (chain_nodup _ _ h.chain)
  have hfirst := chain_first_lt h.chain
  have hk : q / fat16_cluster_size v.priv < l.length := Nat.div_lt_of_lt_mul (by rwa [Nat.mul_comm])
  have hmod := Nat.mod_lt q hsize
  obtain ⟨c, hc, hcluster, hget⟩ := readable_cluster h q hk
  have hwalk : reach v item q = c := by
    unfold reach
    rw [i32_of_lt _ (by omega) (by omega), i32_of_lt _ (by omega) (by omega), hcluster]
  have hplace : place v item q = (((clusterByte v.priv c).toNat + q % fat16_cluster_size v.priv : Nat) : Int) := by
    rw [← starting_pos_eq h.inDisk c hc _ hmod]
    unfold place
    rw [hwalk, i32_of_lt (q : Int) (by omega) (by omega), Int.tmod_eq_emod_of_nonneg (by omega)]
    rfl
  have hstart := h.inDisk.start c hc
  have hstop := h.inDisk.stop c hc
  have hcell := diskByte_cell v.disk ((clusterByte v.priv c).toNat + q % fat16_cluster_size v.priv) (by omega)
  have hnonneg : ¬ reach v item q < 0 := by
    rw [hwalk]
    exact Int.not_lt.mpr (Int.natCast_nonneg c)
  unfold chainByte
  rw [hget, ← hcell, ← hplace]
  exact if_neg hnonneg

theorem seen_readable (h : Readable v.priv v.disk (fat16_get_first_cluster item) l) (q i : Nat)
    (hq : q + i < l.length * fat16_cluster_size v.priv) :
    seen (shown v item) q i = some (chainByte v.priv v.disk l (q + i)) := by
  rw [seen_all, shown_readable h _ hq]
  intro j hj
  rw [shown_readable h _ (by omega)]
  exact Option.some_ne_none _

theorem read_aligned (h : Readable v.priv v.disk (fat16_get_first_cluster item) l) (total : Nat)
    (out : Nat → UInt8) (hpos : 0 < total) (hfit : total ≤ l.length * fat16_cluster_size v.priv) :
    fat16_read_internal v.priv v.disk (fat16_get_first_cluster item) (0 : Nat) total out =
      (0, fun i => if i < total then chainByte v.priv v.disk l i else out i) := by
  have hsize := h.inDisk.size
  unfold fat16_read_internal
  rw [read_internal_rec_eq, Int.toNat_natCast, from_stream_spec h _ 0 total out (by omega) hpos]
  · refine Prod.ext rfl (funext fun i => ?_)
    dsimp only
    rw [pieceByte_inside, Nat.zero_add]
    rw [Nat.zero_mod, Nat.zero_add]
    exact Nat.mod_lt i hsize
  · have := Nat.le_mul_of_pos_right (total + 1) hsize
    omega
  · intro m hm
    have hk : m < l.length := by
      by_contra hle
      have := Nat.mul_le_mul_right (fat16_cluster_size v.priv) (Nat.le_of_not_lt hle)
      omega
    have hc : l.getD m 0 ∈ l := by
      rw [List.getD_eq_getElem?_getD, List.getElem?_eq_getElem hk]
      exact List.getElem_mem hk
    have hstart := h.inDisk.start _ hc
    have hstop := h.inDisk.stop _ hc
    have hpiece : piecePos v.priv l (0 + m * fat16_cluster_size v.priv) = (clusterByte v.priv (l.getD m 0)).toNat := by
      unfold piecePos
      rw [Nat.zero_add, Nat.mul_div_cancel _ hsize, Nat.mul_mod_left, Nat.add_zero]
    rw [hpiece]
    refine diskstreamer_delivers _ _ _ (by omega) (Or.inl ?_)
    unfold clusterByte at hstart ⊢
    omega

theorem read_from (v : Volume) (desc : FatFileDescriptor) (size n : Nat) (out : Nat → UInt8)
    (read : Int → (Nat → UInt8) → Int × (Nat → UInt8))
    (hread : ∀ offset out, fat16_read_internal v.priv v.disk (i32 (fat16_get_first_cluster desc.item.item)) offset
      (i32 size) out = read offset out) :
    fat16_read v desc size n out = if (fat16_read_loop_from read size n (i32 desc.pos) out).1 < 0
      then fat16_read_loop_from read size n (i32 desc.pos) out
      else (i32 n, (fat16_read_loop_from read size n (i32 desc.pos) out).2) := by
  unfold fat16_read
  rw [read_loop_from v _ size read hread]

theorem read_once (v : Volume) (desc : FatFileDescriptor) (size : Nat) (out out' : Nat → UInt8)
    (h : fat16_read_internal v.priv v.disk (i32 (fat16_get_first_cluster desc.item.item)) (i32 desc.pos) (i32 size)
      out = (0, out')) : fat16_read v desc size 1 out = (1, out') := by
  obtain ⟨read, hread⟩ : ∃ read : Int → (Nat → UInt8) → Int × (Nat → UInt8), ∀ offset out,
    fat16_read_internal v.priv v.disk (i32 (fat16_get_first_cluster desc.item.item)) offset (i32 size) out =
      read offset out := ⟨_, fun _ _ => rfl⟩
  have hloop : fat16_read_loop_from read size 1 (i32 desc.pos) out = (0, out') := by
    rw [fat16_read_loop_from, ← hread, h]
    simp only [fat16_read_loop_from, lt_self_iff_false, if_false, Prod.mk.injEq, true_and]
    funext i
    split
    · rfl
    · rw [Nat.sub_add_cancel (by omega)]
  have hone : i32 ((1 : Nat) : Int) = 1 := by decide
  rw [read_from v desc size 1 out read hread, hloop, hone]
  simp

theorem read_bytes (v : Volume) (desc : FatFileDescriptor) (hsize : 0 < fat16_cluster_size v.priv) (n : Nat)
    (out : Nat → UInt8) :
    (fat16_read v desc 1 n out).2 =
      (fun i => if i < n then (seen (shown v desc.item.item) desc.pos i).getD (out i) else out i) ∧
    ((∃ i < n, seen (shown v desc.item.item) desc.pos i = none) → (fat16_read v desc 1 n out).1 < 0) ∧
    ((∀ i < n, seen (shown v desc.item.item) desc.pos i ≠ none) → (fat16_read v desc 1 n out).1 = i32 n) := by
  obtain ⟨hout, hres⟩ := read_loop_spec v desc.item.item hsize n desc.pos out
  unfold fat16_read
  generalize fat16_read_loop v desc.item.item 1 n (i32 desc.pos) out = r at hout hres
  dsimp only
  by_cases hneg : r.1 < 0
  · rw [if_pos hneg]
    refine ⟨hout, fun _ => hneg, fun hall => ?_⟩
    obtain ⟨i, hi, hn⟩ := hres.mp hneg
    exact absurd hn (hall i hi)
  · rw [if_neg hneg]
    dsimp only
    exact ⟨hout, fun hex => absurd (hres.mpr hex) hneg, fun _ => rfl⟩

/-- The read of the loader and the read of the system call. -/
theorem read_whole_agrees (v : Volume) (desc : FatFileDescriptor) (l : List Nat)
    (h : Readable v.priv v.disk (fat16_get_first_cluster desc.item.item) l)
    (hpos : desc.pos = 0) (hsize : 0 < desc.item.item.filesize.toNat)
    (hend : desc.item.item.filesize.toNat < 0x80000000)
    (hfit : desc.item.item.filesize.toNat ≤ l.length * fat16_cluster_size v.priv) : ReadsWhole v desc l := by
  have hfirst := chain_first_lt h.chain
  have hbytes : ∀ out : Nat → UInt8, (fun i => (fileByte v desc.item.item l i).getD (out i)) =
      fun i => if i < desc.item.item.filesize.toNat then chainByte v.priv v.disk l i else out i := by
    intro out
    funext i
    unfold fileByte
    split
    · rename_i hi
      rw [if_pos hi.1]
      rfl
    · rename_i hi
      rw [if_neg fun hlt => hi ⟨hlt, by omega⟩]
      rfl
  constructor
  · intro out
    rw [hbytes]
    refine read_once v desc _ out _ ?_
    rw [hpos, i32_of_lt _ (by omega) (by omega), i32_of_lt _ (by omega) (by omega), i32_of_lt _ (by omega) (by omega)]
    exact read_aligned h _ out hsize hfit
  · intro out
    obtain ⟨hout, -, hres⟩ := read_bytes v desc h.inDisk.size desc.item.item.filesize.toNat out
    have hseen : ∀ i < desc.item.item.filesize.toNat,
        seen (shown v desc.item.item) desc.pos i = some (chainByte v.priv v.disk l i) := by
      intro i hi
      rw [seen_readable h desc.pos i (by omega), hpos, Nat.zero_add]
    rw [hbytes]
    refine Prod.ext ?_ (hout.trans (funext fun i => ?_))
    · rw [hres fun i hi => by rw [hseen i hi]; exact Option.some_ne_none _, i32_of_lt _ (by omega) (by omega)]
    · dsimp only
      split
      · rename_i hi
        rw [hseen i hi]
        rfl
      · rfl

/-- A file of 600 bytes in clusters 2 and 4. -/
def fragmentedFile : FatFileDescriptor := ⟨⟨.file, { sampleEntry with filesize := 600 }, none⟩, 0, -1⟩

def fragmentedVolume : Volume := { sample with disk := fragmented }

theorem fragmentedFile_readable : Readable fragmentedVolume.priv fragmentedVolume.disk
    (fat16_get_first_cluster fragmentedFile.item.item) [2, 4] := fragmented_readable

theorem fragmentedFile_whole : ReadsWhole fragmentedVolume fragmentedFile [2, 4] :=
  read_whole_agrees fragmentedVolume fragmentedFile [2, 4] fragmentedFile_readable rfl (by decide) (by decide)
    (by
      have hsize : fat16_cluster_size fragmentedVolume.priv = 512 := sample_size
      rw [hsize]
      decide)

/-! ## Two reads -/

theorem fread_open (s : Vfs) (ptr : Nat → UInt8) (n : Nat) (fd : Int) (hopen : s.file_get_descriptor fd ≠ 0)
    (hn : n ≠ 0) : s.fread ptr 1 n fd = fat16_read s.vol (s.priv fd) 1 n ptr := by
  have hfd : ¬ fd < 1 := by
    intro hlt
    unfold Vfs.file_get_descriptor at hopen
    rw [if_pos (by omega)] at hopen
    exact hopen rfl
  unfold Vfs.fread Vfs.priv
  simp [hopen, hn, hfd]

theorem fread_bytes (s : Vfs) (ptr : Nat → UInt8) (n : Nat) (fd : Int) (hsize : 0 < fat16_cluster_size s.vol.priv)
    (hopen : s.file_get_descriptor fd ≠ 0) (hn : n ≠ 0) (i : Nat) : (s.fread ptr 1 n fd).2 i =
      if i < n then (seen (shown s.vol (s.priv fd).item.item) (s.priv fd).pos i).getD (ptr i) else ptr i := by
  rw [fread_open s ptr n fd hopen hn, (read_bytes s.vol (s.priv fd) hsize n ptr).1]

theorem freadTwice_bytes (s : Vfs) (ptr : Nat → UInt8) (n m : Nat) (fd : Int)
    (hsize : 0 < fat16_cluster_size s.vol.priv) (hopen : s.file_get_descriptor fd ≠ 0) (hn : n ≠ 0) (hm : m ≠ 0)
    (i : Nat) : s.freadTwice ptr n m fd i =
      if i < n then (seen (shown s.vol (s.priv fd).item.item) (s.priv fd).pos i).getD (ptr i)
      else if i - n < m then (seen (shown s.vol (s.priv fd).item.item) (s.priv fd).pos (i - n)).getD (ptr i)
      else ptr i := by
  unfold Vfs.freadTwice
  simp only [fread_bytes s _ _ fd hsize hopen hn, fread_bytes s _ _ fd hsize hopen hm]
  by_cases hi : i < n
  · rw [if_pos hi, if_pos hi, if_pos hi]
  · rw [if_neg hi, if_neg hi, Nat.sub_add_cancel (by omega), if_neg hi]

theorem getD_inj (a b : Option UInt8) (h : ∀ x, a.getD x = b.getD x) : a = b := by
  rcases a with _ | a <;> rcases b with _ | b
  · rfl
  · have h0 := h (b + 1)
    simp at h0
  · have h0 := h (a + 1)
    simp at h0
  · exact congrArg some (h 0)

theorem continues_iff_seen (s : Vfs) (n m : Nat) (fd : Int) (hsize : 0 < fat16_cluster_size s.vol.priv)
    (hopen : s.file_get_descriptor fd ≠ 0) (hn : n ≠ 0) (hm : m ≠ 0) : s.Continues n m fd ↔
      ∀ i < m, seen (shown s.vol (s.priv fd).item.item) (s.priv fd).pos i =
        seen (shown s.vol (s.priv fd).item.item) (s.priv fd).pos (n + i) := by
  unfold Vfs.Continues
  constructor
  · intro h i hi
    refine getD_inj _ _ fun x => ?_
    have hbyte := congrFun (h fun _ => x) (n + i)
    rw [freadTwice_bytes s _ n m fd hsize hopen hn hm, fread_bytes s _ _ fd hsize hopen (by omega),
      if_neg (by omega), if_pos (by omega), if_pos (by omega), Nat.add_sub_cancel_left] at hbyte
    exact hbyte
  · intro h ptr
    funext i
    rw [freadTwice_bytes s _ n m fd hsize hopen hn hm, fread_bytes s _ _ fd hsize hopen (by omega)]
    by_cases hi : i < n
    · rw [if_pos hi, if_pos (by omega)]
    · rw [if_neg hi]
      simp only [show i - n < m ↔ i < n + m by omega]
      split
      · rw [h (i - n) (by omega), Nat.add_sub_cancel' (by omega)]
      · rfl

theorem seen_repeats_iff (found : Nat → Option UInt8) (q n m : Nat) (hn : n ≠ 0) (hm : m ≠ 0) :
    (∀ i < m, seen found q i = seen found q (n + i)) ↔
      found q = none ∨ (∀ i < n + m, found (q + i) ≠ none) ∧ ∀ i < m, found (q + i) = found (q + (n + i)) := by
  constructor
  · intro h
    by_cases hq : found q = none
    · exact Or.inl hq
    · -- every byte of the second read is a byte of the long read, which has all bytes before it
      have hall : ∀ i < m, seen found q (n + i) ≠ none := by
        intro i hi
        rw [← h i hi]
        induction i with
        | zero => rwa [seen_zero]
        | succ i ih =>
          have hlong := ih (by omega)
          rw [h i (by omega), seen_ne_none] at hlong
          rw [seen_ne_none]
          exact fun j hj => hlong j (by omega)
      have hfound : ∀ i < n + m, found (q + i) ≠ none := by
        intro i hi
        have hlast := hall (m - 1) (by omega)
        rw [seen_ne_none] at hlast
        exact hlast i (by omega)
      refine Or.inr ⟨hfound, fun i hi => ?_⟩
      have hi' := h i hi
      rwa [seen_all q i fun j hj => hfound j (by omega), seen_all q (n + i) fun j hj => hfound j (by omega)] at hi'
  · rintro (hq | ⟨hfound, hrep⟩) i hi
    · rw [seen_none q i hq, seen_none q (n + i) hq]
    · rw [seen_all q i fun j hj => hfound j (by omega), seen_all q (n + i) fun j hj => hfound j (by omega),
        hrep i hi]

/-- `fread` leaves the position where it was. The second read goes on only if the file repeats. -/
theorem reads_continue_iff (s : Vfs) (n m : Nat) (fd : Int) (hsize : 0 < fat16_cluster_size s.vol.priv)
    (hopen : s.file_get_descriptor fd ≠ 0) (hn : 1 ≤ n) (hm : 1 ≤ m) : s.Continues n m fd ↔
      shown s.vol (s.priv fd).item.item (s.priv fd).pos = none ∨
      (∀ i < n + m, shown s.vol (s.priv fd).item.item ((s.priv fd).pos + i) ≠ none) ∧
      ∀ i < m, shown s.vol (s.priv fd).item.item ((s.priv fd).pos + i) =
        shown s.vol (s.priv fd).item.item ((s.priv fd).pos + (n + i)) := by
  rw [continues_iff_seen s n m fd hsize hopen (by omega) (by omega),
    seen_repeats_iff _ _ n m (by omega) (by omega)]

/-- The file of 600 bytes, opened for reading. -/
def fragmentedVfs : Vfs := ⟨fragmentedVolume, true, fun i => if i = 0 then 1 else 0, fun _ => ⟨1, fragmentedFile⟩⟩

theorem fragmentedVfs_size : fat16_cluster_size fragmentedVfs.vol.priv = 512 := sample_size

theorem fragmentedVfs_shown (q : Nat) (hq : q < 1024) : shown fragmentedVfs.vol (fragmentedVfs.priv 1).item.item q =
    some (chainByte sample.priv fragmented [2, 4] q) :=
  shown_readable fragmentedFile_readable q (by
    have hsize : fat16_cluster_size fragmentedVolume.priv = 512 := sample_size
    rw [hsize]
    exact hq)

theorem fragmented_bytes : chainByte sample.priv fragmented [2, 4] 0 = 2 ∧
    chainByte sample.priv fragmented [2, 4] 1 = 2 ∧ chainByte sample.priv fragmented [2, 4] 512 = 4 := by
  rw [fragmented_byte, fragmented_byte, fragmented_byte]
  decide

theorem fragmentedVfs_continues : fragmentedVfs.Continues 1 1 1 :=
  (reads_continue_iff fragmentedVfs 1 1 1 (by rw [fragmentedVfs_size]; decide) (by decide) (by decide) (by decide)).mpr
    (Or.inr ⟨fun i hi => by rw [fragmentedVfs_shown _ (by show 0 + i < 1024; omega)]; exact Option.some_ne_none _,
      fun i hi => by
        obtain rfl : i = 0 := by omega
        rw [fragmentedVfs_shown _ (by decide), fragmentedVfs_shown _ (by decide)]
        exact congrArg some (fragmented_bytes.1.trans fragmented_bytes.2.1.symm)⟩)

theorem fragmentedVfs_seen (i : Nat) (hi : i < 1024) :
    seen (shown fragmentedVfs.vol (fragmentedVfs.priv 1).item.item) (fragmentedVfs.priv 1).pos i =
      some (chainByte sample.priv fragmented [2, 4] i) := by
  have hpos : (fragmentedVfs.priv 1).pos = 0 := rfl
  rw [hpos, seen_all, Nat.zero_add, fragmentedVfs_shown i hi]
  intro j hj
  rw [Nat.zero_add, fragmentedVfs_shown j (by omega)]
  exact Option.some_ne_none _

/-- After a read of the first cluster the next read starts with the first byte again. -/
theorem fragmentedVfs_rewinds : fragmentedVfs.freadTwice (fun _ => 0) 512 1 1 512 = 2 ∧
    (fragmentedVfs.fread (fun _ => 0) 1 (512 + 1) 1).2 512 = 4 ∧ ¬ fragmentedVfs.Continues 512 1 1 := by
  have hsize : 0 < fat16_cluster_size fragmentedVfs.vol.priv := by rw [fragmentedVfs_size]; decide
  have htwice : fragmentedVfs.freadTwice (fun _ => 0) 512 1 1 512 = 2 := by
    rw [freadTwice_bytes fragmentedVfs _ 512 1 1 hsize (by decide) (by decide) (by decide), if_neg (by decide),
      if_pos (by decide), fragmentedVfs_seen _ (by decide)]
    exact fragmented_bytes.1
  have honce : (fragmentedVfs.fread (fun _ => 0) 1 (512 + 1) 1).2 512 = 4 := by
    rw [fread_bytes fragmentedVfs _ (512 + 1) 1 hsize (by decide) (by decide), if_pos (by decide),
      fragmentedVfs_seen _ (by decide)]
    exact fragmented_bytes.2.2
  refine ⟨htwice, honce, fun h => ?_⟩
  unfold Vfs.Continues at h
  rw [h, honce] at htwice
  exact absurd htwice (by decide)

/-! ## The end of the file -/

theorem fread_result (s : Vfs) (ptr : Nat → UInt8) (n : Nat) (fd : Int) (hsize : 0 < fat16_cluster_size s.vol.priv)
    (hopen : s.file_get_descriptor fd ≠ 0) (hn : n ≠ 0) :
    ((s.fread ptr 1 n fd).1 < 0) ∨ ((∀ i < n, seen (shown s.vol (s.priv fd).item.item) (s.priv fd).pos i ≠ none) ∧
      (s.fread ptr 1 n fd).1 = i32 n) := by
  obtain ⟨-, hnone, hall⟩ := read_bytes s.vol (s.priv fd) hsize n ptr
  rw [fread_open s ptr n fd hopen hn]
  by_cases h : ∃ i < n, seen (shown s.vol (s.priv fd).item.item) (s.priv fd).pos i = none
  · exact Or.inl (hnone h)
  · have hseen : ∀ i < n, seen (shown s.vol (s.priv fd).item.item) (s.priv fd).pos i ≠ none :=
      fun i hi hn => h ⟨i, hi, hn⟩
    exact Or.inr ⟨hseen, hall hseen⟩

theorem i32_nonneg (n : Nat) (hn : n < 0x100000000) (h : 0 ≤ i32 n) : i32 n = n := by
  unfold i32 at h ⊢
  rw [Int.bmod_def] at h ⊢
  split at h
  · rename_i hlt
    rw [if_pos hlt]
    omega
  · omega

theorem stopsAtEnd_iff_seen (s : Vfs) (l : List Nat) (n : Nat) (fd : Int) (h0 : n ≠ 0) (hn : n < 0x100000000)
    (hsize : 0 < fat16_cluster_size s.vol.priv) (hopen : s.file_get_descriptor fd ≠ 0) : s.StopsAtEnd l n fd ↔
      ∀ i < n, ∀ b, seen (shown s.vol (s.priv fd).item.item) (s.priv fd).pos i = some b →
        fileByte s.vol (s.priv fd).item.item l ((s.priv fd).pos + i) = some b := by
  constructor
  · intro h i hi b hb
    -- a buffer that holds another byte at this place shows the store
    have hstore := fread_bytes s (fun _ => b + 1) n fd hsize hopen h0 i
    rw [if_pos hi, hb, Option.getD_some] at hstore
    have hfile := (h.stores (fun _ => b + 1) i (by rw [hstore]; simp)).2
    rwa [hstore] at hfile
  · intro h
    have hcount : ∀ ptr, 0 ≤ (s.fread ptr 1 n fd).1 → (s.fread ptr 1 n fd).1 = n ∧
        ∀ i < n, seen (shown s.vol (s.priv fd).item.item) (s.priv fd).pos i ≠ none := by
      intro ptr hge
      rcases fread_result s ptr n fd hsize hopen h0 with hneg | ⟨hall, hres⟩
      · omega
      · rw [hres] at hge ⊢
        exact ⟨i32_nonneg n hn hge, hall⟩
    constructor
    · intro ptr
      by_cases hge : 0 ≤ (s.fread ptr 1 n fd).1
      · obtain ⟨hres, hall⟩ := hcount ptr hge
        obtain ⟨b, hb⟩ := Option.ne_none_iff_exists'.mp (hall (n - 1) (by omega))
        have hlast := h (n - 1) (by omega) b hb
        unfold fileByte at hlast
        split at hlast
        · omega
        · cases hlast
      · omega
    · intro ptr i hne
      have hstore := fread_bytes s ptr n fd hsize hopen h0 i
      by_cases hi : i < n
      · refine ⟨fun hge => by have := (hcount ptr hge).1; omega, ?_⟩
        rcases hb : seen (shown s.vol (s.priv fd).item.item) (s.priv fd).pos i with _ | b
        · rw [if_pos hi, hb] at hstore
          exact absurd hstore hne
        · rw [if_pos hi, hb, Option.getD_some] at hstore
          rw [hstore, h i hi b hb]
      · rw [if_neg hi] at hstore
        exact absurd hstore hne

theorem stopsAtEnd_zero (s : Vfs) (l : List Nat) (fd : Int) : s.StopsAtEnd l 0 fd := by
  have hread : ∀ ptr, s.fread ptr 1 0 fd = (-EINVARG, ptr) := by
    intro ptr
    unfold Vfs.fread
    rw [if_pos (Or.inr (Or.inl rfl))]
  constructor
  · intro ptr
    rw [hread]
    have : -EINVARG < 0 := by decide
    omega
  · intro ptr i hne
    rw [hread] at hne
    exact absurd rfl hne

theorem seen_in_file_iff (v : Volume) (item : FatDirectoryItem) (l : List Nat) (q n : Nat) :
    (∀ i < n, ∀ b, seen (shown v item) q i = some b → fileByte v item l (q + i) = some b) ↔
      ∀ i < n, (∃ j ≤ i, reach v item (q + j) < 0) ∨
        (q + i < item.filesize.toNat ∧ q + i < l.length * fat16_cluster_size v.priv ∧
          diskByte v.disk (place v item (q + i)) = chainByte v.priv v.disk l (q + i)) := by
  refine forall₂_congr fun i _ => ?_
  by_cases hstop : ∃ j ≤ i, reach v item (q + j) < 0
  · refine ⟨fun _ => Or.inl hstop, fun _ b hb => ?_⟩
    obtain ⟨j, hj, hw⟩ := hstop
    have hne : seen (shown v item) q i ≠ none := by simp [hb]
    exact absurd ((shown_eq_none v item _).mpr hw) ((seen_ne_none _ q i).mp hne j hj)
  · have hall : ∀ j ≤ i, shown v item (q + j) ≠ none := by
      intro j hj hn
      exact hstop ⟨j, hj, (shown_eq_none v item _).mp hn⟩
    obtain ⟨b, hb⟩ := Option.ne_none_iff_exists'.mp (hall i (Nat.le_refl i))
    rw [seen_all q i hall, hb, shown_some v item _ b hb]
    unfold fileByte
    constructor
    · intro h
      have hfile := h b rfl
      split at hfile
      · rename_i hin
        exact Or.inr ⟨hin.1, hin.2, (Option.some.inj hfile).symm⟩
      · cases hfile
    · rintro (h | ⟨h1, h2, h3⟩) c hc
      · exact absurd h hstop
      · rw [if_pos ⟨h1, h2⟩, ← hc, h3]

theorem stopsAtEnd_readable (s : Vfs) (n : Nat) (fd : Int) (hn : n < 0x100000000)
    (hopen : s.file_get_descriptor fd ≠ 0)
    (h : Readable s.vol.priv s.vol.disk (fat16_get_first_cluster (s.priv fd).item.item) l)
    (hpos : (s.priv fd).pos < l.length * fat16_cluster_size s.vol.priv)
    (hfile : (s.priv fd).item.item.filesize.toNat < l.length * fat16_cluster_size s.vol.priv) :
    s.StopsAtEnd l n fd ↔ n = 0 ∨ (s.priv fd).pos + n ≤ (s.priv fd).item.item.filesize.toNat := by
  by_cases h0 : n = 0
  · subst h0
    exact ⟨fun _ => Or.inl rfl, fun _ => stopsAtEnd_zero s l fd⟩
  rw [stopsAtEnd_iff_seen s l n fd h0 hn h.inDisk.size hopen]
  constructor
  · intro hall
    refine Or.inr (Nat.not_lt.mp fun hlt => ?_)
    -- the first byte behind the file that the read asks for is still in the last cluster
    obtain ⟨i, hi, hbehind, hin⟩ : ∃ i < n, (s.priv fd).item.item.filesize.toNat ≤ (s.priv fd).pos + i ∧
        (s.priv fd).pos + i < l.length * fat16_cluster_size s.vol.priv :=
      ⟨(s.priv fd).item.item.filesize.toNat - (s.priv fd).pos, by omega, by omega, by omega⟩
    have hbyte := hall i hi _ (seen_readable h _ i hin)
    unfold fileByte at hbyte
    rw [if_neg fun hb => Nat.not_lt.mpr hbehind hb.1] at hbyte
    cases hbyte
  · rintro (hz | hle) i hi b hb
    · exact absurd hz h0
    · rw [seen_readable h _ i (by omega)] at hb
      unfold fileByte
      rw [if_pos ⟨by omega, by omega⟩, hb]

/-- Nothing but an error stops a read at the end of the file. -/
theorem stops_at_end_iff (s : Vfs) (l : List Nat) (n : Nat) (fd : Int) (hn : n < 0x100000000)
    (hsize : 0 < fat16_cluster_size s.vol.priv) (hopen : s.file_get_descriptor fd ≠ 0) : s.StopsAtEnd l n fd ↔
      ∀ i < n, (∃ j ≤ i, reach s.vol (s.priv fd).item.item ((s.priv fd).pos + j) < 0) ∨
        ((s.priv fd).pos + i < (s.priv fd).item.item.filesize.toNat ∧
          (s.priv fd).pos + i < l.length * fat16_cluster_size s.vol.priv ∧
          diskByte s.vol.disk (place s.vol (s.priv fd).item.item ((s.priv fd).pos + i)) =
            chainByte s.vol.priv s.vol.disk l ((s.priv fd).pos + i)) := by
  rw [← seen_in_file_iff]
  by_cases h0 : n = 0
  · subst h0
    exact ⟨fun _ i hi => absurd hi (Nat.not_lt_zero i), fun _ => stopsAtEnd_zero s l fd⟩
  · exact stopsAtEnd_iff_seen s l n fd h0 hn hsize hopen

theorem fragmentedVfs_stops : fragmentedVfs.StopsAtEnd [2, 4] 600 1 :=
  (stops_at_end_iff fragmentedVfs [2, 4] 600 1 (by decide) (by rw [fragmentedVfs_size]; decide) (by decide)).mpr (by
    intro i hi
    have hpos : (fragmentedVfs.priv 1).pos = 0 := rfl
    rw [hpos, Nat.zero_add]
    have hshown := fragmentedVfs_shown i (by omega)
    refine Or.inr ⟨hi, ?_, shown_some _ _ _ _ hshown⟩
    rw [fragmentedVfs_size]
    show i < 1024
    omega)

/-- A read of one byte more gets a byte of the cluster that is not in the file. -/
theorem fragmentedVfs_overruns : (fragmentedVfs.fread (fun _ => 0) 1 601 1).1 = 601 ∧
    (fragmentedVfs.fread (fun _ => 0) 1 601 1).2 600 = 4 ∧ ¬ fragmentedVfs.StopsAtEnd [2, 4] 601 1 := by
  have hsize : 0 < fat16_cluster_size fragmentedVfs.vol.priv := by rw [fragmentedVfs_size]; decide
  have hbyte : chainByte sample.priv fragmented [2, 4] 600 = 4 := by
    rw [fragmented_byte]
    decide
  have hread : (fragmentedVfs.fread (fun _ => 0) 1 601 1).2 600 = 4 := by
    rw [fread_bytes fragmentedVfs _ 601 1 hsize (by decide) (by decide), if_pos (by decide),
      fragmentedVfs_seen _ (by decide), hbyte]
    rfl
  have hres : (fragmentedVfs.fread (fun _ => 0) 1 601 1).1 = 601 := by
    rw [fread_open fragmentedVfs _ 601 1 (by decide) (by decide),
      (read_bytes fragmentedVfs.vol (fragmentedVfs.priv 1) hsize 601 _).2.2 fun i hi => ?_]
    · decide
    · rw [fragmentedVfs_seen i (by omega)]
      exact Option.some_ne_none _
  refine ⟨hres, hread, fun h => ?_⟩
  have hfile := (h.stores (fun _ => 0) 600 (by rw [hread]; decide)).2
  unfold fileByte at hfile
  rw [if_neg (by decide)] at hfile
  cases hfile

end PeachOS.Fat
