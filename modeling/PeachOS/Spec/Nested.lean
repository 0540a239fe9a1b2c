import PeachOS.Code.Directories
import PeachOS.Fat.Lookup

/-!
# Paths through subdirectories

A directory is a sequence of slots: those of the root directory, or those in the cluster of a subdirectory. A path
leads from the root directory to an entry part by part.
-/

namespace PeachOS

/-- The slots of the directory in a cluster. -/
def clusterItem (σ : View) (c i : Nat) : FatDirectoryItem := FatDirectoryItem.ofBytes fun k => σ.data c (32 * i + k)

def Subdirectory (it : FatDirectoryItem) : Prop := it.attr &&& 0x10 ≠ 0

instance (it : FatDirectoryItem) : Decidable (Subdirectory it) := inferInstanceAs (Decidable (_ ≠ _))

/-- Slot `i` of a directory with `n` slots has an entry: it is live, and no slot before it is never used. -/
structure IsEntry (item : Nat → FatDirectoryItem) (n i : Nat) : Prop where
  lt : i < n
  before : ∀ k < i, (item k).filename 0 ≠ 0x00
  live : Live (item i)

/-- The path leads from a directory to an entry: each part but the last names a subdirectory that has the next. -/
inductive Leads (L : Layout) (σ : View) :
    (Nat → FatDirectoryItem) → Nat → List (Nat → UInt8) → FatDirectoryItem → Prop
  | last (item : Nat → FatDirectoryItem) (n i : Nat) (part : Nat → UInt8) :
      IsEntry item n i → Matches (item i) part → Leads L σ item n [part] (item i)
  | down (item : Nat → FatDirectoryItem) (n i : Nat) (part : Nat → UInt8) (next : List (Nat → UInt8))
      (it : FatDirectoryItem) :
      IsEntry item n i → Matches (item i) part → Subdirectory (item i) →
      Leads L σ (clusterItem σ (fat16_get_first_cluster (item i))) (L.clusterSize / 32) next it →
      Leads L σ item n (part :: next) it

/-- The path leads from the root directory to the entry. -/
def LeadsTo (L : Layout) (σ : View) (part : Nat → UInt8) (next : List (Nat → UInt8)) (it : FatDirectoryItem) : Prop :=
  Leads L σ σ.dir L.rde (part :: next) it

/-- What a lookup should return: an item for an entry that the path leads to, and null if there is none. -/
def Resolves (L : Layout) (σ : View) (part : Nat → UInt8) (next : List (Nat → UInt8)) : Option FatItem → Prop
  | some f_item => LeadsTo L σ part next f_item.item
  | none => ∀ it, ¬ LeadsTo L σ part next it

/-- A directory that ends in its `n` slots, with neither deleted entries nor parts of long names. -/
def Tidy (item : Nat → FatDirectoryItem) (n : Nat) : Prop :=
  ∃ k < n, (item k).filename 0 = 0x00 ∧ ∀ i < k, Live (item i)

/-- The root directory is tidy, and so are its subdirectories, each in one cluster. What is further down does not
matter. -/
structure TidyTree (L : Layout) (σ : View) : Prop where
  root : Tidy σ.dir L.rde
  sub : ∀ i, IsEntry σ.dir L.rde i → Subdirectory (σ.dir i) → L.InRange (fat16_get_first_cluster (σ.dir i)) ∧
    Tidy (clusterItem σ (fat16_get_first_cluster (σ.dir i))) (L.clusterSize / 32)

end PeachOS
