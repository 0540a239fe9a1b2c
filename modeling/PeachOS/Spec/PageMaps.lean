import PeachOS.Code.Paging

/-!
# Address spaces as flat maps

What page directories are for: each one is a map from pages to entries. The calls on any number of directories
are calls on a list of such maps, and no call on one of them is seen in another.
-/

namespace PeachOS

/-- From the address of a page to its entry. -/
abbrev FlatMap := Nat → Nat

namespace FlatMap

def identity (flags : Nat) : FlatMap := fun v => v ||| flags

def set (m : FlatMap) (virt val : Nat) : FlatMap := fun v => if v = virt then val else m v

/-- The pages `virt + 4096 * i` (mod 2^32) for `i < n` get the entries `(phys + 4096 * i) ||| flags`. The page `v`
is the one with `i = (v - virt) / 4096`, counted around 2^32. -/
def setPages (m : FlatMap) (virt phys n flags : Nat) : FlatMap := fun v =>
  let i := (v + 2 ^ 32 - virt) % 2 ^ 32 / 4096
  if i < n then (phys + 4096 * i) ||| flags else m v

end FlatMap

/-- Calls on the chunks that there are, by number. -/
inductive PagingCall
  | new (flags : UInt8)
  | copy (chunk : Nat)
  | set (chunk : Nat) (virt val : UInt32)
  | map_to (chunk : Nat) (virt phys phys_end : UInt32) (flags : Fin 4096)

namespace PagingCall

/-- The calls that are not rejected. -/
def Accepted : PagingCall → Prop
  | new _ => True
  | copy _ => True
  | set _ virt _ => virt.toNat % 4096 = 0
  | map_to _ virt phys phys_end _ => virt.toNat % 4096 = 0 ∧ phys.toNat % 4096 = 0 ∧ phys_end.toNat % 4096 = 0 ∧
      phys.toNat ≤ phys_end.toNat

instance : DecidablePred Accepted
  | new _ | copy _ => isTrue trivial
  | set _ virt _ => inferInstanceAs (Decidable (virt.toNat % 4096 = 0))
  | map_to _ _ _ _ _ => inferInstanceAs (Decidable (_ ∧ _ ∧ _ ∧ _))

/-- What an update does to its map, unless it is rejected. -/
def onMap (call : PagingCall) (m : FlatMap) : FlatMap :=
  if ¬ call.Accepted then m else
  match call with
  | set _ virt val => m.set virt.toNat val.toNat
  | map_to _ virt phys phys_end flags =>
    m.setPages virt.toNat phys.toNat ((phys_end.toNat - phys.toNat) / 4096) flags
  | _ => m

def onMaps (maps : List FlatMap) (call : PagingCall) : List FlatMap :=
  match call with
  | new flags => maps ++ [.identity flags.toNat]
  | copy c => maps ++ maps[c]?.toList
  | set c _ _ => maps.modify c call.onMap
  | map_to c _ _ _ _ => maps.modify c call.onMap

end PagingCall

/-- The kernel and the chunks that it has made. -/
structure PagingSys where
  kernel : Kernel
  chunks : List Nat

namespace PagingSys

/-- What the code returns for an update, and the memory that it leaves. -/
def update (s : PagingSys) (chunk : Nat) : PagingCall → Int × (Nat → UInt8)
  | .set _ virt val => paging_set s.kernel.mem (read32 s.kernel.mem chunk) virt.toNat val.toNat
  | .map_to _ virt phys phys_end flags =>
    paging_map_to s.kernel.mem chunk virt.toNat phys.toNat phys_end.toNat flags
  | _ => (0, s.kernel.mem)

/-- An update of chunk `c`. -/
def updated (s : PagingSys) (c : Nat) (call : PagingCall) : PagingSys :=
  match s.chunks[c]? with
  | none => s
  | some chunk => { s with kernel := { s.kernel with mem := (s.update chunk call).2 } }

def step (s : PagingSys) (call : PagingCall) : PagingSys :=
  match call with
  | .new flags =>
    let res := s.kernel.paging_new_4gb flags.toNat
    ⟨res.2, s.chunks ++ [res.1]⟩
  | .copy c =>
    match s.chunks[c]? with
    | none => s
    | some chunk =>
      let res := s.kernel.paging_copy_4gb chunk
      ⟨res.2, s.chunks ++ [res.1]⟩
  | .set c _ _ => s.updated c call
  | .map_to c _ _ _ _ => s.updated c call

/-- `paging_get` on each chunk is the map with its number. -/
structure Shows (s : PagingSys) (maps : List FlatMap) : Prop where
  length : s.chunks.length = maps.length
  get : ∀ (c chunk : Nat) (m : FlatMap), s.chunks[c]? = some chunk → maps[c]? = some m → ∀ v, v % 4096 = 0 →
    v < 2 ^ 32 → paging_get s.kernel.mem (read32 s.kernel.mem chunk) v = m v

/-- An update returns 0, or it is rejected with an error and nothing changes. -/
def Answers (s : PagingSys) (call : PagingCall) : Prop :=
  ∀ chunk ∈ s.chunks, if call.Accepted then (s.update chunk call).1 = 0
    else (s.update chunk call).1 < 0 ∧ (s.update chunk call).2 = s.kernel.mem

end PagingSys

end PeachOS
