import PeachOS.Code.Fat16
import PeachOS.Lib.Paged
import PeachOS.Lib.Chain

/-!
# What is on a FAT16 volume

A volume is two copies of the FAT, a root directory and data clusters. `Layout` says where they
are, and `View` is what they hold, with the bytes and sectors gone.
-/

open PeachOS.Lib

namespace PeachOS

structure Layout where
  /-- The sectors before the first FAT. -/
  reserved : Nat
  /-- Sectors per FAT copy. -/
  spf : Nat
  /-- Root directory entries. -/
  rde : Nat
  /-- Sectors per cluster. -/
  spc : Nat
  /-- Data clusters. They have the numbers from 2 on. -/
  clusters : Nat
deriving DecidableEq

namespace Layout

def fatPos (L : Layout) : Nat := L.reserved * 512
def mirrorPos (L : Layout) : Nat := (L.reserved + L.spf) * 512
def rootPos (L : Layout) : Nat := (L.reserved + 2 * L.spf) * 512
def dataPos (L : Layout) : Nat := L.rootPos + L.rde * 32
def clusterSize (L : Layout) : Nat := L.spc * 512
def clusterPos (L : Layout) (c : Nat) : Nat := L.dataPos + (c - 2) * L.clusterSize

/-- Entries in one FAT copy. -/
def entries (L : Layout) : Nat := 256 * L.spf

def InRange (L : Layout) (c : Nat) : Prop := 2 ≤ c ∧ c < L.clusters + 2

instance (L : Layout) (c : Nat) : Decidable (L.InRange c) := inferInstanceAs (Decidable (_ ∧ _))

/-- The root directory fills whole sectors, the FAT has an entry for every cluster, and every byte
position is below 2^31. -/
structure Wf (L : Layout) : Prop where
  rde16 : L.rde % 16 = 0
  spc_pos : 0 < L.spc
  room : L.clusters + 2 ≤ L.entries
  below : L.dataPos + L.clusters * L.clusterSize ≤ 0x80000000

/-- Cluster numbers are below the end-of-chain values and the bad-cluster value. -/
def Small (L : Layout) : Prop := L.clusters + 1 < 0xFFF7

instance (L : Layout) : Decidable L.Small := inferInstanceAs (Decidable (_ < _))

end Layout

/-- A mounted driver state and the layout that its header gives. -/
structure Mounted (p : FatPrivate) (L : Layout) : Prop where
  copies : p.header.fat_copies = 2
  reserved : p.header.reserved_sectors.toNat = L.reserved
  spf : p.header.sectors_per_fat.toNat = L.spf
  rde : p.header.root_dir_entries.toNat = L.rde
  spc : p.header.sectors_per_cluster.toNat = L.spc
  sector_pos : p.root_directory.sector_pos = (L.reserved + 2 * L.spf : Nat)
  ending : p.root_directory.ending_sector_pos = (L.reserved + 2 * L.spf + L.rde * 32 / 512 : Nat)
  clusters : fat16_clusters p = L.clusters

/-- The contents of a volume. Outside its ranges everything is zero. -/
@[ext]
structure View where
  fat : Nat → Nat
  mirror : Nat → Nat
  dir : Nat → FatDirectoryItem
  data : Nat → Nat → UInt8

def Layout.view (L : Layout) (s : Nat → Sector) : View where
  fat c := if c < L.entries then le16 fun i => cellAt s (L.fatPos + 2 * c + i) else 0
  mirror c := if c < L.entries then le16 fun i => cellAt s (L.mirrorPos + 2 * c + i) else 0
  dir i := if i < L.rde then FatDirectoryItem.ofBytes fun k => cellAt s (L.rootPos + 32 * i + k)
    else FatDirectoryItem.zero
  data c o := if L.InRange c ∧ o < L.clusterSize then cellAt s (L.clusterPos c + o) else 0

namespace View

def setFat (σ : View) (c v : Nat) : View := { σ with fat := fun x => if x = c then v else σ.fat x }

def setMirror (σ : View) (c v : Nat) : View :=
  { σ with mirror := fun x => if x = c then v else σ.mirror x }

/-- Both FAT copies. -/
def setBoth (σ : View) (c v : Nat) : View := (σ.setFat c v).setMirror c v

def setDir (σ : View) (i : Nat) (it : FatDirectoryItem) : View :=
  { σ with dir := fun x => if x = i then it else σ.dir x }

/-- `n` bytes of `inp` in cluster `c`, from offset `off` on. -/
def setData (σ : View) (c off n : Nat) (inp : Nat → UInt8) : View :=
  { σ with data := fun x o => if x = c ∧ off ≤ o ∧ o < off + n then inp (o - off) else σ.data x o }

section Fields

variable (σ : View) (c v i off n x : Nat) (it : FatDirectoryItem) (inp : Nat → UInt8)

@[simp] theorem setFat_fat : (σ.setFat c v).fat x = if x = c then v else σ.fat x := rfl
@[simp] theorem setFat_mirror : (σ.setFat c v).mirror = σ.mirror := rfl
@[simp] theorem setFat_dir : (σ.setFat c v).dir = σ.dir := rfl
@[simp] theorem setFat_data : (σ.setFat c v).data = σ.data := rfl
@[simp] theorem setMirror_fat : (σ.setMirror c v).fat = σ.fat := rfl
@[simp] theorem setMirror_mirror : (σ.setMirror c v).mirror x = if x = c then v else σ.mirror x := rfl
@[simp] theorem setMirror_dir : (σ.setMirror c v).dir = σ.dir := rfl
@[simp] theorem setMirror_data : (σ.setMirror c v).data = σ.data := rfl
@[simp] theorem setBoth_fat : (σ.setBoth c v).fat x = if x = c then v else σ.fat x := rfl
@[simp] theorem setBoth_mirror : (σ.setBoth c v).mirror x = if x = c then v else σ.mirror x := rfl
@[simp] theorem setBoth_dir : (σ.setBoth c v).dir = σ.dir := rfl
@[simp] theorem setBoth_data : (σ.setBoth c v).data = σ.data := rfl
@[simp] theorem setDir_fat : (σ.setDir i it).fat = σ.fat := rfl
@[simp] theorem setDir_mirror : (σ.setDir i it).mirror = σ.mirror := rfl
@[simp] theorem setDir_dir : (σ.setDir i it).dir x = if x = i then it else σ.dir x := rfl
@[simp] theorem setDir_data : (σ.setDir i it).data = σ.data := rfl
@[simp] theorem setData_fat : (σ.setData c off n inp).fat = σ.fat := rfl
@[simp] theorem setData_mirror : (σ.setData c off n inp).mirror = σ.mirror := rfl
@[simp] theorem setData_dir : (σ.setData c off n inp).dir = σ.dir := rfl

end Fields

end View

/-! ## Files -/

/-- An entry that names a file: not free, not deleted, no part of a long name. -/
def Live (it : FatDirectoryItem) : Prop :=
  it.filename 0 ≠ 0x00 ∧ it.filename 0 ≠ 0xE5 ∧ it.attr ≠ 0x0F

instance (it : FatDirectoryItem) : Decidable (Live it) := inferInstanceAs (Decidable (_ ∧ _ ∧ _))

/-- An end-of-chain value. -/
def Eoc (v : Nat) : Prop := 0xFFF8 ≤ v

instance (v : Nat) : Decidable (Eoc v) := inferInstanceAs (Decidable (_ ≤ _))

/-- Following the FAT from `first` visits `l`, in range and without repetition, and ends. -/
def FatChain (L : Layout) (fat : Nat → Nat) (first : Nat) (l : List Nat) : Prop :=
  Chain fat L.InRange Eoc first l

/-- The clusters of a file: none for first cluster 0, else the chain. -/
def ClusterList (L : Layout) (fat : Nat → Nat) (first : Nat) (l : List Nat) : Prop :=
  (first = 0 ∧ l = []) ∨ FatChain L fat first l

/-- The live chains are in range, acyclic, terminated and pairwise disjoint. -/
structure ChainsOk (L : Layout) (σ : View) : Prop where
  list : ∀ i < L.rde, Live (σ.dir i) →
    ∃ l, ClusterList L σ.fat (fat16_get_first_cluster (σ.dir i)) l
  apart : ∀ i < L.rde, ∀ j < L.rde, i ≠ j → Live (σ.dir i) → Live (σ.dir j) → ∀ l m,
    ClusterList L σ.fat (fat16_get_first_cluster (σ.dir i)) l →
    ClusterList L σ.fat (fat16_get_first_cluster (σ.dir j)) m → l.Disjoint m

/-- The FAT structural invariant: besides, every file size fits in its chain. -/
structure FatInv (L : Layout) (σ : View) : Prop extends ChainsOk L σ where
  size : ∀ i < L.rde, Live (σ.dir i) → ∀ l,
    ClusterList L σ.fat (fat16_get_first_cluster (σ.dir i)) l →
    (σ.dir i).filesize.toNat ≤ l.length * L.clusterSize

/-- The entry, the clusters and the data of slot `j` are the same in both views. -/
def Untouched (L : Layout) (σ σ' : View) (j : Nat) : Prop :=
  σ'.dir j = σ.dir j ∧ ∀ l, ClusterList L σ.fat (fat16_get_first_cluster (σ.dir j)) l →
    ClusterList L σ'.fat (fat16_get_first_cluster (σ.dir j)) l ∧ ∀ x ∈ l, σ'.data x = σ.data x

/-- What is on the disk of a volume. -/
def Volume.view (v : Volume) (L : Layout) : View := L.view v.disk.sector

/-- The in-memory root directory is what is on disk. -/
def Synced (L : Layout) (v : Volume) : Prop :=
  ∀ i < L.rde, v.priv.root_directory.item i = (v.view L).dir i

/-- A mounted volume with the layout `L`. -/
structure Volume.Ok (v : Volume) (L : Layout) : Prop where
  mounted : Mounted v.priv L
  synced : Synced L v

end PeachOS
