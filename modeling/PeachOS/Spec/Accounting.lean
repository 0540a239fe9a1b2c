import PeachOS.Spec.File
import PeachOS.Spec.FileReads

/-!
# Clusters and bytes that are accounted for

A write needs clusters. It takes the ones of the file first and then free ones, and it may run out of them.
-/

namespace PeachOS

/-- The free clusters. -/
def freeClusters (L : Layout) (σ : View) : List Nat := (List.range' 2 L.clusters).filter fun c => σ.fat c = 0

/-- The number of clusters that a file has at least after `total` bytes were written at `pos`. -/
def clustersNeeded (L : Layout) (pos total : Nat) : Nat :=
  if total = 0 then pos / L.clusterSize + 1 else (pos + total - 1) / L.clusterSize + 1

/-- A file with the clusters `l` can have the clusters that a write needs. -/
def Fits (L : Layout) (σ : View) (l : List Nat) (pos total : Nat) : Prop :=
  clustersNeeded L pos total ≤ l.length + (freeClusters L σ).length

instance (L : Layout) (σ : View) (l : List Nat) (pos total : Nat) : Decidable (Fits L σ l pos total) :=
  inferInstanceAs (Decidable (_ ≤ _))

/-- Every cluster in use belongs to a live entry. -/
def Owned (L : Layout) (σ : View) : Prop :=
  ∀ c, L.InRange c → σ.fat c ≠ 0 → ∃ i < L.rde, Live (σ.dir i) ∧
    ∃ l, ClusterList L σ.fat (fat16_get_first_cluster (σ.dir i)) l ∧ c ∈ l

/-- After a write from `v` to `v'` that failed, no cluster is lost, and the file in `slot`, which had the clusters
`l`, can be deleted as if the write had not been tried. -/
structure LeaksNothing (L : Layout) (v v' : Volume) (slot : Nat) (l : List Nat) : Prop where
  owned : Owned L (v'.view L)
  freed : ∀ part, fat16_find_root_dir_slot_by_name v'.priv part = slot → ∀ c, L.InRange c →
    (((fat16_delete v' part).2.view L).fat c = 0 ↔ (v.view L).fat c = 0 ∨ c ∈ l)

end PeachOS
