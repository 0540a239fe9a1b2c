import PeachOS.Lib.Run
import PeachOS.Spec.PageMaps
import PeachOS.Process.Map
import PeachOS.Process.Sharing

/-!
# Page directories refine flat maps

Every chunk has a directory and tables in pages of its own. A call on one chunk writes to its tables only, so the
other directories are as before.
-/

open PeachOS.Lib PeachOS.Kernel

namespace PeachOS.Memory

variable {k k' : Kernel} {chunk dir f : Nat} {table : Nat → Nat}

/-! ## One directory -/

/-- The pages that a directory is in. -/
def InDir (chunk dir : Nat) (table : Nat → Nat) (a : Nat) : Prop :=
  a = chunk ∨ a = dir ∨ ∃ i < 1024, a = table i

/-- A directory and the map that it stands for. -/
structure Holds (k : Kernel) (chunk dir : Nat) (table : Nat → Nat) (f : Nat) (m : FlatMap) : Prop where
  pageDir : PageDir k chunk dir table f
  get : ∀ v, v % 4096 = 0 → v < 2 ^ 32 → paging_get k.mem dir v = m v

theorem inDir_used (h : PageDir k chunk dir table f) (a : Nat) (ha : InDir chunk dir table a) : k.UsedAt a := by
  rcases ha with rfl | rfl | ⟨i, hi, rfl⟩
  · exact h.chunk_used
  · exact h.dir_used
  · exact h.table_used i hi

theorem holds_write {m : FlatMap} (hk : k.HeapOk) (h : Holds k chunk dir table f m) (mem : Nat → UInt8)
    (hmem : ∀ a, InDir chunk dir table a → ∀ o < 4096, mem (a + o) = k.mem (a + o)) :
    Holds { k with mem := mem } chunk dir table f m := by
  have hword : ∀ a, InDir chunk dir table a → ∀ o, o + 4 ≤ 4096 →
      read32 mem (a + o) = read32 k.mem (a + o) := by
    intro a ha o ho
    refine read32_congr _ _ fun i hi => ?_
    rw [Nat.add_assoc]
    exact hmem a ha (o + i) (by omega)
  have hd := h.pageDir
  have hdir : PageDir { k with mem := mem } chunk dir table f := by
    refine ⟨hd.flags, hd.chunk_used, hd.dir_used, hd.table_used, hd.chunk_ne, hd.dir_ne, hd.table_inj, ?_, ?_⟩
    · have := hword chunk (Or.inl rfl) 0 (by omega)
      rw [Nat.add_zero] at this
      exact this.trans hd.chunk_eq
    · intro i hi
      exact (hword dir (Or.inr (Or.inl rfl)) (4 * i) (by omega)).trans (hd.entry i hi)
  refine ⟨hdir, ?_⟩
  intro v hv hlt
  rw [← h.get v hv hlt, paging_get_eq hk hd v hv hlt, paging_get_eq (heapOk_write hk mem) hdir v hv hlt]
  exact hword _ (Or.inr (Or.inr ⟨v / 4194304, by omega, rfl⟩)) _ (by omega)

theorem holds_since {m : FlatMap} (hk : k.HeapOk) (h : Holds k chunk dir table f m) (hs : k.Since k') :
    Holds k' chunk dir table f m := by
  refine ⟨pageDir_since h.pageDir hs, ?_⟩
  intro v hv hlt
  rw [paging_get_since hk h.pageDir hs v hv hlt, h.get v hv hlt]

theorem holds_new (hk : k.HeapOk) (flags : Nat) (hf : flags < 4096)
    (h : NewDir k k' chunk dir table f (identityBytes flags)) :
    Holds k' chunk dir table f (.identity flags) :=
  ⟨h.pageDir, fun v hv hlt => paging_get_identity hk flags h hf v hv hlt⟩

theorem holds_copy {src sdir : Nat} {stable : Nat → Nat} {m : FlatMap} (hk : k.HeapOk)
    (hsrc : Holds k src sdir stable f m) (h : NewDir k k' chunk dir table f fun i o => k.mem (stable i + o)) :
    Holds k' chunk dir table f m := by
  refine ⟨h.pageDir, ?_⟩
  intro v hv hlt
  rw [← hsrc.get v hv hlt, paging_get_eq (since_heapOk h.since hk) h.pageDir v hv hlt,
    paging_get_eq hk hsrc.pageDir v hv hlt]
  refine read32_congr _ _ fun o ho => ?_
  rw [Nat.add_assoc, h.bytes _ (by omega) _ (by omega), Nat.add_assoc]

theorem paging_set_eq (hk : k.HeapOk) (h : PageDir k chunk dir table f) (virt val : Nat) (hv : virt % 4096 = 0)
    (hlt : virt < 2 ^ 32) : paging_set k.mem dir virt val = (0, write32 k.mem (entryAddr table virt) val) := by
  have hal : paging_is_aligned virt = true := decide_eq_true hv
  unfold paging_set
  rw [paging_get_indexes_spec virt hv]
  simp only [hal, Bool.not_true, Bool.false_eq_true, if_false, lt_self_iff_false]
  rw [pageDir_table hk h _ (by omega)]
  rfl

theorem paging_set_spec {m : FlatMap} (hk : k.HeapOk) (h : Holds k chunk dir table f m) (virt val : Nat)
    (hv : virt % 4096 = 0) (hlt : virt < 2 ^ 32) (hval : val < 2 ^ 32) :
    ∃ mem, paging_set k.mem (read32 k.mem chunk) virt val = (0, mem) ∧
      (∀ x, (∀ i < 1024, ¬ (table i ≤ x ∧ x < table i + 4096)) → mem x = k.mem x) ∧
      Holds { k with mem := mem } chunk dir table f (m.set virt val) := by
  have hd := h.pageDir
  have hdir := pageDir_write hk hd virt val hlt
  refine ⟨write32 k.mem (entryAddr table virt) val, ?_, ?_, hdir, ?_⟩
  · rw [hd.chunk_eq]
    exact paging_set_eq hk hd virt val hv hlt
  · intro x hx
    have := hx (virt / 4194304) (by omega)
    exact write32_of_not _ _ _ (by unfold entryAddr; omega)
  · intro v hva hvl
    rw [paging_get_eq (heapOk_write hk _) hdir v hva hvl]
    unfold FlatMap.set
    split
    · rename_i heq
      subst heq
      exact read32_write32_same _ _ hval
    · rename_i hne
      rw [← h.get v hva hvl, paging_get_eq hk hd v hva hvl]
      exact read32_write32_other _ _ _ (entryAddr_apart hk hd virt v hv hva hlt hvl fun heq => hne heq.symm)

theorem paging_map_to_around {m : FlatMap} (hk : k.HeapOk) (h : Holds k chunk dir table f m)
    (virt phys phys_end flags : Nat) (hf : flags < 4096) (hv : virt % 4096 = 0) (hp : phys % 4096 = 0)
    (he : phys_end % 4096 = 0) (hle : phys ≤ phys_end) (hvlt : virt < 2 ^ 32) (helt : phys_end < 2 ^ 32) :
    ∃ mem, paging_map_to k.mem chunk virt phys phys_end flags = (0, mem) ∧
      (∀ x, (∀ i < 1024, ¬ (table i ≤ x ∧ x < table i + 4096)) → mem x = k.mem x) ∧
      Holds { k with mem := mem } chunk dir table f (m.setPages virt phys ((phys_end - phys) / 4096) flags) := by
  obtain ⟨n, hn⟩ : ∃ n, (phys_end - phys) / 4096 = n := ⟨_, rfl⟩
  obtain ⟨mem, heq, hdir, hframe, hget⟩ := paging_map_range_around hk h.pageDir flags n virt phys hf hv hp hvlt
    (by omega) (by omega)
  refine ⟨mem, ?_, hframe, hdir, ?_⟩
  · unfold paging_map_to PAGING_PAGE_SIZE
    rw [if_neg (by omega), if_neg (by omega), if_neg (by omega), if_neg (by omega)]
    dsimp only
    rw [hn, heq]
  · intro v hva hvl
    rw [hget v hva hvl, h.get v hva hvl, hn]
    unfold FlatMap.setPages
    dsimp only
    have hpage : (v + 2 ^ 32 - virt) % 2 ^ 32 = 4096 * ((v + 2 ^ 32 - virt) % 2 ^ 32 / 4096) := by omega
    generalize (v + 2 ^ 32 - virt) % 2 ^ 32 / 4096 = i at *
    rw [hpage]
    by_cases hin : i < n
    · rw [if_pos hin, if_pos (by omega)]
    · rw [if_neg hin, if_neg (by omega)]

/-! ## Any number of directories -/

/-- A directory with its pages and its map. -/
structure Space where
  chunk : Nat
  dir : Nat
  table : Nat → Nat
  flags : Nat
  map : FlatMap

def Space.In (d : Space) (a : Nat) : Prop := InDir d.chunk d.dir d.table a

def Space.Holds (d : Space) (k : Kernel) : Prop := Memory.Holds k d.chunk d.dir d.table d.flags d.map

/-- The directories of all chunks, in pages of their own. -/
structure Spaces (s : PagingSys) (ds : List Space) : Prop where
  heap : s.kernel.HeapOk
  chunks : s.chunks = ds.map Space.chunk
  holds : ∀ (i : Nat) (d : Space), ds[i]? = some d → d.Holds s.kernel
  apart : ∀ (i j : Nat) (d e : Space), i ≠ j → ds[i]? = some d → ds[j]? = some e → ∀ a, d.In a → ¬ e.In a

variable {s : PagingSys} {ds : List Space}

theorem spaces_shows (h : Spaces s ds) : s.Shows (ds.map Space.map) := by
  constructor
  · rw [h.chunks, List.length_map, List.length_map]
  · intro c chunk m hchunk hm v hv hlt
    rw [h.chunks, List.getElem?_map] at hchunk
    rw [List.getElem?_map] at hm
    cases hd : ds[c]? with
    | none =>
      rw [hd] at hm
      cases hm
    | some d =>
      rw [hd] at hchunk hm
      cases hchunk
      cases hm
      have hold := h.holds c d hd
      rw [hold.pageDir.chunk_eq]
      exact hold.get v hv hlt

theorem spaces_add (h : Spaces s ds) (hs : s.kernel.Since k') (d : Space) (hd : d.Holds k')
    (hpage : ∀ a, d.In a → Page s.kernel k' a) :
    Spaces ⟨k', s.chunks ++ [d.chunk]⟩ (ds ++ [d]) := by
  have hnew : ∀ (i : Nat) (e : Space), ds[i]? = some e → ∀ a, e.In a → ¬ d.In a := by
    intro i e he a ha had
    exact page_ne hs a a (hpage a had) (inDir_used (h.holds i e he).pageDir a ha) rfl
  have hcases : ∀ (i : Nat) (e : Space), (ds ++ [d])[i]? = some e → ds[i]? = some e ∨ (i = ds.length ∧ e = d) := by
    intro i e he
    rw [List.getElem?_append] at he
    split at he
    · exact Or.inl he
    · have hi := (List.getElem?_eq_some_iff.mp he).1
      rw [List.length_singleton] at hi
      rw [show i - ds.length = 0 by omega] at he
      cases he
      exact Or.inr ⟨by omega, rfl⟩
  refine ⟨since_heapOk hs h.heap, ?_, ?_, ?_⟩
  · rw [h.chunks, List.map_append]
    rfl
  · intro i e he
    rcases hcases i e he with hold | ⟨-, rfl⟩
    · exact holds_since h.heap (h.holds i e hold) hs
    · exact hd
  · intro i j e e' hij he he' a ha ha'
    rcases hcases i e he with hold | ⟨hi, rfl⟩
    · rcases hcases j e' he' with hold' | ⟨-, rfl⟩
      · exact h.apart i j e e' hij hold hold' a ha ha'
      · exact hnew i e hold a ha ha'
    · rcases hcases j e' he' with hold' | ⟨hj, -⟩
      · exact hnew j e' hold' a ha' ha
      · exact hij (hi.trans hj.symm)

theorem spaces_update (h : Spaces s ds) (c : Nat) (d : Space) (hc : ds[c]? = some d) (g : FlatMap → FlatMap)
    (mem : Nat → UInt8) (hmem : ∀ x, (∀ i < 1024, ¬ (d.table i ≤ x ∧ x < d.table i + 4096)) →
      mem x = s.kernel.mem x)
    (hd : Memory.Holds { s.kernel with mem := mem } d.chunk d.dir d.table d.flags (g d.map)) :
    Spaces { s with kernel := { s.kernel with mem := mem } }
      (ds.modify c fun d => { d with map := g d.map }) := by
  have hcases : ∀ (i : Nat) (e : Space), (ds.modify c fun d => { d with map := g d.map })[i]? = some e →
      ∃ e0, ds[i]? = some e0 ∧ e = if c = i then { e0 with map := g e0.map } else e0 := by
    intro i e he
    rw [List.getElem?_modify] at he
    obtain ⟨e0, he0, rfl⟩ := Option.map_eq_some_iff.mp he
    exact ⟨e0, he0, rfl⟩
  have hin : ∀ i (e0 : Space) a, (if c = i then { e0 with map := g e0.map } else e0).In a ↔ e0.In a := by
    intro i e0 a
    split <;> rfl
  refine ⟨heapOk_write h.heap mem, ?_, ?_, ?_⟩
  · apply List.ext_getElem?
    intro i
    rw [h.chunks, List.getElem?_map, List.getElem?_map, List.getElem?_modify]
    cases ds[i]? with
    | none => rfl
    | some e =>
      by_cases hi : c = i
      · simp [hi]
      · simp [hi]
  · intro i e he
    obtain ⟨e0, he0, rfl⟩ := hcases i e he
    split
    · rename_i heq
      subst heq
      rw [he0] at hc
      cases hc
      exact hd
    · rename_i hne
      refine holds_write h.heap (h.holds i e0 he0) mem ?_
      intro a ha o ho
      have hau := (usedAt_aligned h.heap a (inDir_used (h.holds i e0 he0).pageDir a ha)).1
      refine hmem _ fun j hj hin => ?_
      have htu := (usedAt_aligned h.heap _ ((h.holds c d hc).pageDir.table_used j hj)).1
      have haj : a ≠ d.table j := by
        rintro rfl
        exact h.apart c i d e0 hne hc he0 _ (Or.inr (Or.inr ⟨j, hj, rfl⟩)) ha
      omega
  · intro i j e e' hij he he' a
    obtain ⟨e0, he0, rfl⟩ := hcases i e he
    obtain ⟨e1, he1, rfl⟩ := hcases j e' he'
    rw [hin, hin]
    exact h.apart i j e0 e1 hij he0 he1 a

theorem spaces_chunk (h : Spaces s ds) (c chunk : Nat) (hc : s.chunks[c]? = some chunk) :
    ∃ d, ds[c]? = some d ∧ d.chunk = chunk := by
  rw [h.chunks, List.getElem?_map] at hc
  exact Option.map_eq_some_iff.mp hc

theorem map_modify (ds : List Space) (c : Nat) (g : FlatMap → FlatMap) :
    (ds.modify c fun d => { d with map := g d.map }).map Space.map = (ds.map Space.map).modify c g := by
  apply List.ext_getElem?
  intro i
  rw [List.getElem?_map, List.getElem?_modify, List.getElem?_modify, List.getElem?_map]
  cases ds[i]? with
  | none => rfl
  | some e =>
    by_cases hi : c = i
    · simp [hi]
    · simp [hi]

theorem modify_of_none (maps : List FlatMap) (c : Nat) (g : FlatMap → FlatMap) (h : maps[c]? = none) :
    maps.modify c g = maps :=
  List.modify_eq_self (List.getElem?_eq_none_iff.mp h)

/-! ## Calls -/

theorem toNat_lt12 (flags : UInt8) : flags.toNat < 4096 := by
  have := flags.toNat_lt
  omega

theorem paging_new_4gb_oom (k : Kernel) (flags : Nat) (h : (k.paging_new_4gb flags).2.oom = false) :
    k.oom = false := by
  obtain ⟨res, hres⟩ : ∃ res, k.kzalloc (4 * PAGING_TOTAL_ENTRIES_PER_TABLE) = res := ⟨_, rfl⟩
  obtain ⟨k1, hk1⟩ : ∃ k1, paging_new_loop res.1 flags PAGING_TOTAL_ENTRIES_PER_TABLE 0 0 res.2 = k1 := ⟨_, rfl⟩
  obtain ⟨res', hres'⟩ : ∃ res', k1.kzalloc 4 = res' := ⟨_, rfl⟩
  rw [paging_new_4gb_eq k k1 flags res res' hres hk1 hres'] at h
  have h1 : (k1.kzalloc 4).2.oom = false := by rw [hres']; exact h
  have h2 := (kzalloc_oom _ _ h1).1
  rw [← hk1] at h2
  have h3 := paging_new_loop_oom _ _ _ _ _ _ h2
  rw [← hres] at h3
  exact (kzalloc_oom _ _ h3).1

theorem updated_oom (s : PagingSys) (c : Nat) (call : PagingCall) :
    (s.updated c call).kernel.oom = s.kernel.oom := by
  unfold PagingSys.updated
  cases s.chunks[c]? with
  | none => rfl
  | some chunk => rfl

theorem step_set_oom (s : PagingSys) (c : Nat) (virt val : UInt32) :
    (s.step (.set c virt val)).kernel.oom = s.kernel.oom := updated_oom s c _

theorem step_map_to_oom (s : PagingSys) (c : Nat) (virt phys phys_end : UInt32) (flags : Fin 4096) :
    (s.step (.map_to c virt phys phys_end flags)).kernel.oom = s.kernel.oom := updated_oom s c _

theorem step_oom (s : PagingSys) (call : PagingCall) (h : (s.step call).kernel.oom = false) :
    s.kernel.oom = false := by
  cases call with
  | new flags => exact paging_new_4gb_oom _ _ h
  | copy c =>
    unfold PagingSys.step at h
    dsimp only at h
    cases hc : s.chunks[c]? with
    | none =>
      rw [hc] at h
      exact h
    | some chunk =>
      rw [hc] at h
      exact paging_copy_4gb_oom _ _ h
  | set c virt val => rwa [step_set_oom] at h
  | map_to c virt phys phys_end flags => rwa [step_map_to_oom] at h

theorem run_oom (calls : List PagingCall) (s : PagingSys) (h : (calls.foldl PagingSys.step s).kernel.oom = false) :
    s.kernel.oom = false := by
  induction calls generalizing s with
  | nil => exact h
  | cons call calls ih => exact step_oom s call (ih _ h)

theorem update_rejected (s : PagingSys) (chunk : Nat) (call : PagingCall) (h : ¬ call.Accepted) :
    (s.update chunk call).1 < 0 ∧ (s.update chunk call).2 = s.kernel.mem := by
  cases call with
  | new flags => exact absurd trivial h
  | copy c => exact absurd trivial h
  | set c virt val =>
    have hal : paging_is_aligned virt.toNat = false := decide_eq_false h
    have herr : paging_set s.kernel.mem (read32 s.kernel.mem chunk) virt.toNat val.toNat =
        (-EINVARG, s.kernel.mem) := by
      unfold paging_set
      rw [hal]
      rfl
    unfold PagingSys.update
    dsimp only
    rw [herr]
    exact ⟨show -EINVARG < 0 by decide, rfl⟩
  | map_to c virt phys phys_end flags =>
    have herr : paging_map_to s.kernel.mem chunk virt.toNat phys.toNat phys_end.toNat flags =
        (-EINVARG, s.kernel.mem) := by
      unfold PagingCall.Accepted at h
      unfold paging_map_to PAGING_PAGE_SIZE
      split
      · rfl
      split
      · rfl
      split
      · rfl
      rw [if_pos (by omega)]
    unfold PagingSys.update
    dsimp only
    rw [herr]
    exact ⟨show -EINVARG < 0 by decide, rfl⟩

theorem update_accepted (h : Spaces s ds) (c : Nat) (d : Space) (hc : ds[c]? = some d) (call : PagingCall)
    (hcall : call.Accepted) : (s.update d.chunk call).1 = 0 ∧
      Spaces { s with kernel := { s.kernel with mem := (s.update d.chunk call).2 } }
        (ds.modify c fun d => { d with map := call.onMap d.map }) := by
  have hold := h.holds c d hc
  cases call with
  | new flags => exact ⟨rfl, spaces_update h c d hc id s.kernel.mem (fun _ _ => rfl) hold⟩
  | copy c' => exact ⟨rfl, spaces_update h c d hc id s.kernel.mem (fun _ _ => rfl) hold⟩
  | set c' virt val =>
    obtain ⟨mem, heq, hframe, hnew⟩ := paging_set_spec h.heap hold virt.toNat val.toNat hcall virt.toNat_lt val.toNat_lt
    have hon : PagingCall.onMap (.set c' virt val) d.map = d.map.set virt.toNat val.toNat :=
      if_neg (not_not_intro hcall)
    unfold PagingSys.update
    dsimp only
    rw [heq]
    refine ⟨rfl, spaces_update h c d hc _ mem hframe ?_⟩
    rw [hon]
    exact hnew
  | map_to c' virt phys phys_end flags =>
    obtain ⟨hv, hp, he, hle⟩ := id hcall
    obtain ⟨mem, heq, hframe, hnew⟩ := paging_map_to_around h.heap hold virt.toNat phys.toNat phys_end.toNat flags
      flags.isLt hv hp he hle virt.toNat_lt phys_end.toNat_lt
    have hon : PagingCall.onMap (.map_to c' virt phys phys_end flags) d.map =
        d.map.setPages virt.toNat phys.toNat ((phys_end.toNat - phys.toNat) / 4096) flags :=
      if_neg (not_not_intro hcall)
    unfold PagingSys.update
    dsimp only
    rw [heq]
    refine ⟨rfl, spaces_update h c d hc _ mem hframe ?_⟩
    rw [hon]
    exact hnew

theorem spaces_updated (h : Spaces s ds) (c : Nat) (call : PagingCall) :
    ∃ ds', Spaces (s.updated c call) ds' ∧ ds'.map Space.map = (ds.map Space.map).modify c call.onMap := by
  unfold PagingSys.updated
  cases hchunk : s.chunks[c]? with
  | none =>
    refine ⟨ds, h, (modify_of_none _ _ _ ?_).symm⟩
    rw [h.chunks, List.getElem?_map, Option.map_eq_none_iff] at hchunk
    rw [List.getElem?_map, hchunk]
    rfl
  | some chunk =>
    obtain ⟨d, hc, rfl⟩ := spaces_chunk h c chunk hchunk
    dsimp only
    by_cases hcall : call.Accepted
    · exact ⟨_, (update_accepted h c d hc call hcall).2, map_modify ds c call.onMap⟩
    · have hid : call.onMap = id := by
        funext m
        exact if_pos hcall
      rw [(update_rejected s d.chunk call hcall).2, hid]
      exact ⟨ds, h, (List.modify_id c _).symm⟩

theorem spaces_newDir {content : Nat → Nat → UInt8} (h : Spaces s ds) (res : Nat × Kernel)
    (hnew : NewDir s.kernel res.2 res.1 dir table f content) (m : FlatMap) (hm : Holds res.2 res.1 dir table f m) :
    ∃ ds', Spaces ⟨res.2, s.chunks ++ [res.1]⟩ ds' ∧ ds'.map Space.map = ds.map Space.map ++ [m] := by
  refine ⟨_, spaces_add h hnew.since ⟨res.1, dir, table, f, m⟩ hm ?_, List.map_append⟩
  rintro a (rfl | rfl | ⟨i, hi, rfl⟩)
  · exact hnew.chunk_page
  · exact hnew.dir_page
  · exact hnew.table_page i hi

theorem step_new (s : PagingSys) (flags : UInt8) (res : Nat × Kernel)
    (h : s.kernel.paging_new_4gb flags.toNat = res) : s.step (.new flags) = ⟨res.2, s.chunks ++ [res.1]⟩ := by
  subst h
  rfl

theorem step_copy (s : PagingSys) (c chunk : Nat) (res : Nat × Kernel) (hc : s.chunks[c]? = some chunk)
    (h : s.kernel.paging_copy_4gb chunk = res) : s.step (.copy c) = ⟨res.2, s.chunks ++ [res.1]⟩ := by
  subst h
  unfold PagingSys.step
  dsimp only
  rw [hc]

theorem spaces_step (h : Spaces s ds) (call : PagingCall) (hoom : (s.step call).kernel.oom = false) :
    ∃ ds', Spaces (s.step call) ds' ∧ ds'.map Space.map = call.onMaps (ds.map Space.map) := by
  cases call with
  | new flags =>
    obtain ⟨res, hres⟩ : ∃ res, s.kernel.paging_new_4gb flags.toNat = res := ⟨_, rfl⟩
    rw [step_new s flags res hres] at hoom ⊢
    obtain ⟨-, -, dir, table, hnew⟩ := paging_new_4gb_spec h.heap flags.toNat (toNat_lt12 flags) (by rwa [hres])
    rw [hres] at hnew
    exact spaces_newDir h res hnew _ (holds_new h.heap _ (toNat_lt12 flags) hnew)
  | copy c =>
    cases hchunk : s.chunks[c]? with
    | none =>
      refine ⟨ds, ?_, ?_⟩
      · unfold PagingSys.step
        dsimp only
        rw [hchunk]
        exact h
      · rw [h.chunks, List.getElem?_map, Option.map_eq_none_iff] at hchunk
        unfold PagingCall.onMaps
        dsimp only
        rw [List.getElem?_map, hchunk]
        exact (List.append_nil _).symm
    | some chunk =>
      obtain ⟨d, hc, rfl⟩ := spaces_chunk h c chunk hchunk
      obtain ⟨res, hres⟩ : ∃ res, s.kernel.paging_copy_4gb d.chunk = res := ⟨_, rfl⟩
      rw [step_copy s c d.chunk res hchunk hres] at hoom ⊢
      obtain ⟨-, -, dir, table, hnew⟩ := paging_copy_4gb_spec h.heap (h.holds c d hc).pageDir (by rwa [hres])
      rw [hres] at hnew
      have hmaps : PagingCall.onMaps (ds.map Space.map) (.copy c) = ds.map Space.map ++ [d.map] := by
        unfold PagingCall.onMaps
        dsimp only
        rw [List.getElem?_map, hc]
        rfl
      rw [hmaps]
      exact spaces_newDir h res hnew _ (holds_copy h.heap (h.holds c d hc) hnew)
  | set c virt val => exact spaces_updated h c _
  | map_to c virt phys phys_end flags => exact spaces_updated h c _

theorem spaces_answers (h : Spaces s ds) (call : PagingCall) : s.Answers call := by
  intro chunk hchunk
  split
  · rename_i hcall
    obtain ⟨c, hc⟩ := List.mem_iff_getElem?.mp hchunk
    obtain ⟨d, hd, rfl⟩ := spaces_chunk h c chunk hc
    exact (update_accepted h c d hd call hcall).1
  · rename_i hcall
    exact update_rejected s chunk call hcall

theorem spaces_run (calls : List PagingCall) (h : Spaces s ds)
    (hoom : (calls.foldl PagingSys.step s).kernel.oom = false) :
    (calls.foldl PagingSys.step s).Shows (calls.foldl PagingCall.onMaps (ds.map Space.map)) ∧
      Along PagingSys.step PagingSys.Answers calls s := by
  induction calls generalizing s ds with
  | nil => exact ⟨spaces_shows h, trivial⟩
  | cons call calls ih =>
    obtain ⟨ds', h', hmaps⟩ := spaces_step h call (run_oom calls _ hoom)
    obtain ⟨hshows, halong⟩ := ih h' hoom
    rw [hmaps] at hshows
    exact ⟨hshows, spaces_answers h call, halong⟩

theorem spaces_nil (k : Kernel) (hk : k.HeapOk) : Spaces ⟨k, []⟩ [] := by
  refine ⟨hk, rfl, ?_, ?_⟩
  · intro i d h
    cases h
  · intro i j d e _ h
    cases h

/-- The chunks of any run stand for the flat maps of the run, as long as memory is found. -/
theorem paging_refines_flat_maps (k : Kernel) (hk : k.HeapOk) (calls : List PagingCall)
    (hoom : (calls.foldl PagingSys.step ⟨k, []⟩).kernel.oom = false) :
    (calls.foldl PagingSys.step ⟨k, []⟩).Shows (calls.foldl PagingCall.onMaps []) ∧
      Along PagingSys.step PagingSys.Answers calls ⟨k, []⟩ :=
  spaces_run calls (spaces_nil k hk) hoom

/-- Two chunks after boot: one is copied from the other, and then mapped around the end of memory. -/
def bootMaps : List PagingCall := [.new 7, .copy 0, .map_to 1 0xFFFFF000 0x1000 0x3000 3, .set 0 1 5]

theorem bootMaps_oom : (bootMaps.foldl PagingSys.step ⟨bootKernel, []⟩).kernel.oom = false := by
  have h0 := room_paging_new_4gb (7 : UInt8).toNat (1026 + 1) (room_le _ _ bootKernel_room (by decide))
  obtain ⟨res, hres⟩ : ∃ res, bootKernel.paging_new_4gb (7 : UInt8).toNat = res := ⟨_, rfl⟩
  rw [hres] at h0
  have h1 := room_paging_copy_4gb res.1 1 h0.2
  obtain ⟨res', hres'⟩ : ∃ res', res.2.paging_copy_4gb res.1 = res' := ⟨_, rfl⟩
  rw [hres'] at h1
  unfold bootMaps
  rw [List.foldl_cons, step_new ⟨bootKernel, []⟩ 7 res hres, List.foldl_cons,
    step_copy ⟨res.2, [] ++ [res.1]⟩ 0 res.1 res' rfl hres', List.foldl_cons, List.foldl_cons, List.foldl_nil,
    step_set_oom, step_map_to_oom]
  exact h1.2.oom

theorem bootMaps_refines : (bootMaps.foldl PagingSys.step ⟨bootKernel, []⟩).Shows
    [.identity 7, (FlatMap.identity 7).setPages 0xFFFFF000 0x1000 2 3] :=
  (paging_refines_flat_maps bootKernel bootKernel_room.heap bootMaps bootMaps_oom).1

end PeachOS.Memory
