import PeachOS.Fat.Invariant
import PeachOS.Fat.Mount
import PeachOS.Spec.Runs

/-!
# One descriptor at a time

While a single descriptor is open, its item is the entry in its slot. So a write finds the chain that
the entry names, and every state on the way keeps the FAT structural invariant.
-/

open PeachOS.Lib PeachOS.Streamer

namespace PeachOS.Fat

variable {L : Layout} {v : Volume} {desc : FatFileDescriptor} {slot : Nat} {l : List Nat}

/-- `desc` is open for writing on `slot`, with the clusters `l`, and no other descriptor is open. -/
structure Sole (L : Layout) (v : Volume) (desc : FatFileDescriptor) (slot : Nat) (l : List Nat) :
    Prop where
  ok : v.Ok L
  inv : FatInv L (v.view L)
  lt : slot < L.rde
  handle : desc.root_dir_slot = slot
  entry : (v.view L).dir slot = desc.item.item
  list : ClusterList L (v.view L).fat (fat16_get_first_cluster desc.item.item) l
  apart : Apart L (v.view L) slot l
  size : desc.item.item.filesize.toNat ≤ l.length * L.clusterSize
  start : fat16_get_first_cluster desc.item.item = 0 → desc.pos = 0

theorem sole_open (hL : L.Wf) (hS : L.Small) (hv : v.Ok L) (hf : FatInv L (v.view L))
    (name : Nat → UInt8) (kzalloc : FatMemory) (v' : Volume) (res : Except Int FatFileDescriptor)
    (h : fat16_open_write v name kzalloc = (v', res)) :
    v'.Ok L ∧ FatInv L (v'.view L) ∧
      ∀ desc, res = .ok desc → ∃ slot, Sole L v' desc slot [] ∧ Opened desc slot ((v'.view L).dir slot) ∧
        Blank desc.item.item ∧ Replaces L slot (v.view L) (v'.view L) := by
  obtain ⟨hok, hcase⟩ := fat16_open_write_spec hv hL hS hf.toChainsOk name kzalloc v' res h
  rcases hcase with ⟨rfl, rfl⟩ | ⟨i, it, hi, hentry, hrec, hop⟩
  · exact ⟨hok, hf, fun desc hd => by cases hd⟩
  · have hblank := blank_opened i name it hentry
    have hf' := recycled_fatInv hS hf it hi hrec (fun _ => hblank)
    have hdir := recycled_entry it hrec
    refine ⟨hok, hf', fun desc hd => ⟨i, ?_, ?_, ?_, recycled_replaces hf.toChainsOk it hi hrec⟩⟩
    · obtain ⟨hitem, hpos, hslot, -⟩ := hop desc hd
      refine ⟨hok, hf', hi, hslot, by rw [hdir, hitem], ?_, ?_, ?_, fun _ => hpos⟩
      · rw [hitem]
        exact clusterList_zero _ _ hblank.first
      · exact fun _ _ _ _ _ _ => List.disjoint_nil_left _
      · rw [hitem, hblank.size]
        exact Nat.zero_le _
    · rw [hdir]
      exact hop desc hd
    · rw [(hop desc hd).item]
      exact hblank

theorem sole_safe (hS : L.Small) (h : Sole L v desc slot l) (σ : View)
    (hg : GrowsFrom L (v.view L) (fat16_get_first_cluster desc.item.item) l σ) :
    FatInv L σ ∧ Replaces L slot (v.view L) σ := by
  obtain ⟨m, hm, hgrows⟩ := hg
  have hrep := grows_replaces hgrows h.apart
  refine ⟨fatInv_replace hS h.inv hrep (fun _ => ⟨m, ?_, grows_apart hgrows h.apart, ?_⟩), hrep⟩
  · rw [hgrows.dir, h.entry]
    exact hm
  · rw [hgrows.dir, h.entry]
    exact h.size.trans (Nat.mul_le_mul_right _ hgrows.pre.length_le)

theorem sole_done (hS : L.Small) (h : Sole L v desc slot l) (total : Nat) (buf : Nat → UInt8)
    (v' : Volume) (desc' : FatFileDescriptor) (σ : View) (m : List Nat) (hok : v'.Ok L)
    (hd : WriteDone L v desc slot total buf l v' desc' σ m) :
    Sole L v' desc' slot m ∧ Replaces L slot (v.view L) (v'.view L) := by
  have hrep := grows_setDir_replaces hd.grows h.apart desc'.item.item
  have hlist : ClusterList L (v'.view L).fat (fat16_get_first_cluster desc'.item.item) m := by
    rw [hd.view]
    exact Or.inr hd.chain
  have hap := grows_apart hd.grows h.apart
  have hentry : (v'.view L).dir slot = desc'.item.item := by
    rw [hd.view, View.setDir_dir, if_pos rfl]
  have hsize : desc'.item.item.filesize.toNat ≤ m.length * L.clusterSize := by
    rw [hd.size]
    exact max_le (h.size.trans (Nat.mul_le_mul_right _ hd.grows.pre.length_le)) hd.written.room
  rw [← hd.view] at hrep
  have hinv : FatInv L (v'.view L) := by
    refine fatInv_replace hS h.inv hrep (fun _ => ⟨m, ?_, hap, ?_⟩) <;> rw [hentry]
    · exact hlist
    · exact hsize
  refine ⟨⟨hok, hinv, h.lt, by rw [hd.slot, h.handle], hentry, hlist, ?_, hsize, ?_⟩, hrep⟩
  · -- The other live slots have the lists they had before.
    intro j hj hne hlive k hk
    obtain ⟨hlive', hk'⟩ := replaces_list hS h.inv.toChainsOk hrep j hj hne hlive k hk
    exact hap j hj hne hlive' k hk'
  · intro hz
    have := chain_ok _ _ hd.chain _ (chain_mem_first _ _ hd.chain)
    rw [hz] at this
    exact absurd this not_inRange_zero

theorem sole_failed (hS : L.Small) (h : Sole L v desc slot l) (v' : Volume) (hok : v'.Ok L)
    (hg : GrowsFrom L (v.view L) (fat16_get_first_cluster desc.item.item) l (v'.view L)) :
    ∃ m, Sole L v' desc slot m := by
  obtain ⟨hinv, hrep⟩ := sole_safe hS h _ hg
  obtain ⟨m, hm, hgrows⟩ := hg
  refine ⟨m, hok, hinv, h.lt, h.handle, by rw [hgrows.dir, h.entry], hm, ?_, ?_, h.start⟩
  · intro j hj hne hlive k hk
    obtain ⟨hlive', hk'⟩ := replaces_list hS h.inv.toChainsOk hrep j hj hne hlive k hk
    exact grows_apart hgrows h.apart j hj hne hlive' k hk'
  · exact h.size.trans (Nat.mul_le_mul_right _ hgrows.pre.length_le)

theorem sole_write (hL : L.Wf) (hS : L.Small) (h : Sole L v desc slot l) (w : WriteCall) :
    (∃ m, Sole L (fat16_write v desc w.size w.nmemb w.buf).2.1
      (fat16_write v desc w.size w.nmemb w.buf).2.2 slot m) ∧
    VSteps L (fun σ => FatInv L σ ∧ Replaces L slot (v.view L) σ) v.disk
      (fat16_write v desc w.size w.nmemb w.buf).2.1.disk := by
  obtain ⟨r, v', desc', heq, hend⟩ := fat16_write_spec h.ok hL hS desc slot h.handle h.lt w.size w.nmemb
    w.buf l h.list h.start
  rw [heq]
  have hlast : (∃ m, Sole L v' desc' slot m) ∧ Replaces L slot (v.view L) (v'.view L) := by
    rcases hend.cases with ⟨-, rfl, hg⟩ | ⟨-, σ, m, hd⟩
    · exact ⟨sole_failed hS h v' hend.ok hg, (sole_safe hS h _ hg).2⟩
    · obtain ⟨hsole, hrep⟩ := sole_done hS h _ w.buf v' desc' σ m hend.ok hd
      exact ⟨⟨m, hsole⟩, hrep⟩
  refine ⟨hlast.1, vsteps_mono L _ _ _ _ hend.steps ?_⟩
  rintro σ (hg | rfl)
  · exact sole_safe hS h σ hg
  · obtain ⟨⟨m, hsole⟩, hrep⟩ := hlast
    exact ⟨hsole.inv, hrep⟩

theorem sole_writeAll (hL : L.Wf) (hS : L.Small) (calls : List WriteCall) (v : Volume)
    (desc : FatFileDescriptor) (l : List Nat) (h : Sole L v desc slot l) :
    ∃ m, Sole L (writeAll calls v desc).1 (writeAll calls v desc).2 slot m := by
  induction calls generalizing v desc l with
  | nil => exact ⟨l, h⟩
  | cons w ws ih =>
    obtain ⟨⟨m, hm⟩, -⟩ := sole_write hL hS h w
    exact ih _ _ m hm

/-! ## Sessions -/

theorem session_keeps (hL : L.Wf) (hS : L.Small) (s : Session) (v : Volume) (hv : v.Ok L)
    (hf : FatInv L (v.view L)) : (s.run v).Ok L ∧ FatInv L ((s.run v).view L) := by
  cases s with
  | write part next kzalloc calls =>
    obtain ⟨v', res, heq⟩ : ∃ v' res, fat16_open_write v part kzalloc = (v', res) := ⟨_, _, rfl⟩
    obtain ⟨hok, hf', hopen⟩ := sole_open hL hS hv hf part kzalloc v' res heq
    simp only [Session.run, fat16_open, heq]
    cases res with
    | error e => exact ⟨hok, hf'⟩
    | ok desc =>
      obtain ⟨slot, hsole, -⟩ := hopen desc rfl
      obtain ⟨m, hm⟩ := sole_writeAll hL hS calls v' desc [] hsole
      exact ⟨hm.ok, hm.inv⟩
  | read part next kzalloc => exact ⟨hv, hf⟩
  | delete part =>
    obtain ⟨r, v', heq⟩ : ∃ r v', fat16_delete v part = (r, v') := ⟨_, _, rfl⟩
    obtain ⟨hok, hcase⟩ := fat16_delete_spec hv hL hS hf.toChainsOk part r v' heq
    simp only [Session.run, heq]
    rcases hcase with ⟨rfl, -⟩ | ⟨i, hi, -, -, -, hrec⟩
    · exact ⟨hok, hf⟩
    · exact ⟨hok, recycled_fatInv hS hf _ hi hrec (fun hl => absurd hl (not_live_deleted _))⟩

theorem sessions_keep (hL : L.Wf) (hS : L.Small) (ss : List Session) (v : Volume) (hv : v.Ok L)
    (hf : FatInv L (v.view L)) :
    (ss.foldl Session.run v).Ok L ∧ FatInv L ((ss.foldl Session.run v).view L) := by
  induction ss generalizing v with
  | nil => exact ⟨hv, hf⟩
  | cons s ss ih =>
    obtain ⟨hv', hf'⟩ := session_keeps hL hS s v hv hf
    exact ih (s.run v) hv' hf'

/-- From mounting on, the FAT structural invariant holds after every run of sessions, on disk and in
the in-memory directory, which stays the one on disk. -/
theorem sessions_keep_fatInv (fuel : Nat) (d : Disk) (alloc : Bool) (mem : Nat → UInt8) (v : Volume)
    (hmount : fat16_resolve fuel d alloc mem = some (.ok v)) (hc : v.priv.header.fat_copies = 2)
    (hL : (layoutOf v.priv).Wf) (hS : (layoutOf v.priv).Small)
    (hf : FatInv (layoutOf v.priv) (v.view (layoutOf v.priv))) (ss : List Session) :
    FatInv (layoutOf v.priv) ((ss.foldl Session.run v).view (layoutOf v.priv)) ∧
      Synced (layoutOf v.priv) (ss.foldl Session.run v) := by
  have hv := fat16_resolve_ok fuel d alloc mem v hmount hc hL
  obtain ⟨hok, hinv⟩ := sessions_keep hL hS ss v hv hf
  exact ⟨hinv, hok.synced⟩

theorem sample_live : ∀ i < 16, Live ((sample.view sampleLayout).dir i) → i = 0 := by
  decide +kernel

theorem sample_file : fat16_get_first_cluster ((sample.view sampleLayout).dir 0) = 2 ∧
    (sample.view sampleLayout).fat 2 = 0xFFFF ∧ ((sample.view sampleLayout).dir 0).filesize = 3 := by
  decide +kernel

theorem sample_list : FatChain sampleLayout (sample.view sampleLayout).fat
    (fat16_get_first_cluster ((sample.view sampleLayout).dir 0)) [2] := by
  rw [sample_file.1]
  refine .last 2 ?_ ?_
  · rw [sampleLayout_eq]
    decide
  · rw [sample_file.2.1]
    decide

theorem sample_inv : FatInv sampleLayout (sample.view sampleLayout) := by
  have hrde : sampleLayout.rde = 16 := by rw [sampleLayout_eq]
  have hcs : sampleLayout.clusterSize = 512 := by rw [sampleLayout_eq]; rfl
  refine ⟨⟨?_, ?_⟩, ?_⟩
  · intro i hi hlive
    rw [sample_live i (by omega) hlive]
    exact ⟨[2], Or.inr sample_list⟩
  · intro i hi j hj hij hli hlj
    have h1 := sample_live i (by omega) hli
    have h2 := sample_live j (by omega) hlj
    omega
  · intro i hi hlive l hl
    rw [sample_live i (by omega) hlive] at hl ⊢
    rw [clusterList_unique sample_small _ _ l [2] hl (Or.inr sample_list), hcs, sample_file.2.2]
    decide

theorem sample_sessions :
    FatInv sampleLayout (([Session.delete (cstr [65]),
      .write (cstr [66]) [] .enough [⟨1, 600, fun _ => 7⟩, ⟨2000, 2, fun _ => 8⟩]].foldl
        Session.run sample).view sampleLayout) :=
  (sessions_keep_fatInv 3 sampleDisk true (fun _ => 0) sample sample_mounts sample_copies sample_wf
    sample_small sample_inv _).1

/-- A new file `B`, opened for writing. -/
def sampleB : Volume × FatFileDescriptor :=
  match fat16_open sample (cstr [66]) [] .write .enough with
  | (v, .ok desc) => (v, desc)
  | (v, .error _) => (v, ⟨⟨.file, .zero, none⟩, 0, 0⟩)

theorem sampleB_opens :
    fat16_open sample (cstr [66]) [] .write .enough = (sampleB.1, .ok sampleB.2) := by
  have h : (fat16_open sample (cstr [66]) [] .write .enough).2.toBool = true := by
    decide +kernel
  unfold sampleB
  revert h
  generalize fat16_open sample (cstr [66]) [] .write .enough = r
  rcases r with ⟨v, _ | desc⟩
  · exact fun h => by cases h
  · exact fun _ => rfl

end PeachOS.Fat
