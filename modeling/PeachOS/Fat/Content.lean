import PeachOS.Fat.Sessions

/-!
# The content of a file

The write path refines the byte file of the specification: after every successful call the bytes on
disk are the bytes of the byte file.
-/

open PeachOS.Lib PeachOS.Streamer

namespace PeachOS.Fat

/-! ## Byte files -/

theorem length_overwrite (xs : List UInt8) (pos : Nat) (ys : List UInt8) (h : pos ≤ xs.length) :
    (overwrite xs pos ys).length = max xs.length (pos + ys.length) := by
  unfold overwrite
  simp only [List.length_append, List.length_take, List.length_drop]
  omega

theorem getElem?_overwrite (xs : List UInt8) (pos : Nat) (ys : List UInt8) (h : pos ≤ xs.length)
    (q : Nat) : (overwrite xs pos ys)[q]? =
      if pos ≤ q ∧ q < pos + ys.length then ys[q - pos]? else xs[q]? := by
  have htake : (xs.take pos).length = pos := by
    rw [List.length_take]
    omega
  unfold overwrite
  by_cases h1 : q < pos
  · rw [List.append_assoc, List.getElem?_append_left (by omega), if_neg (by omega),
      List.getElem?_take_of_lt h1]
  by_cases h2 : q < pos + ys.length
  · rw [List.getElem?_append_left (by rw [List.length_append]; omega),
      List.getElem?_append_right (by omega), htake, if_pos (by omega)]
  · rw [List.getElem?_append_right (by rw [List.length_append]; omega), if_neg (by omega),
      List.getElem?_drop, List.length_append, htake,
      show pos + ys.length + (q - (pos + ys.length)) = q by omega]

@[simp]
theorem length_bufferBytes (n : Nat) (buf : Nat → UInt8) : (bufferBytes n buf).length = n := by
  simp [bufferBytes]

theorem getElem?_bufferBytes (n : Nat) (buf : Nat → UInt8) (q : Nat) (h : q < n) :
    (bufferBytes n buf)[q]? = some (buf q) := by
  simp [bufferBytes, h]

variable {L : Layout} {v : Volume} {desc : FatFileDescriptor} {slot : Nat} {l : List Nat}
variable {f : ByteFile}

/-! ## The refinement -/

/-- The descriptor and the disk hold the byte file `f`. -/
structure Holds (L : Layout) (v : Volume) (desc : FatFileDescriptor) (slot : Nat) (l : List Nat)
    (f : ByteFile) : Prop where
  sole : Sole L v desc slot l
  length : f.bytes.length = desc.item.item.filesize.toNat
  bytes : ∀ q < f.bytes.length, f.bytes[q]? = some (byteAt L (v.view L) l q)
  pos : desc.pos = f.pos
  within : f.pos ≤ f.bytes.length
  type : desc.item.type = .file

theorem holds_write (hL : L.Wf) (hS : L.Small) (h : Holds L v desc slot l f) (size nmemb : Nat)
    (buf : Nat → UInt8) (hlt : size * nmemb < 0x80000000) (r : Int) (v' : Volume)
    (desc' : FatFileDescriptor) (heq : fat16_write v desc size nmemb buf = (r, v', desc')) (hr : 0 ≤ r) :
    (∃ m, Holds L v' desc' slot m (f.step (.write size nmemb buf))) ∧
      Replaces L slot (v.view L) (v'.view L) := by
  obtain ⟨r₁, v₁, desc₁, heq₁, hend⟩ := fat16_write_spec h.sole.ok hL hS desc slot h.sole.handle h.sole.lt
    size nmemb buf l h.sole.list h.sole.start
  rw [heq] at heq₁
  cases heq₁
  have htotal : u32 ((size : Int) * (nmemb : Int)) = size * nmemb := by
    rw [← Int.natCast_mul, u32_natCast, Nat.mod_eq_of_lt (by omega)]
  rcases hend.cases with ⟨rfl, -⟩ | ⟨-, σ, m, hd⟩
  · exact absurd hr (by decide)
  rw [htotal] at hd
  obtain ⟨hsole, hrep⟩ := sole_done hS h.sole _ buf v' desc' σ m hend.ok hd
  have hpos := h.pos
  have hin := h.within
  have hsize := hd.size
  rw [hpos, ← h.length] at hsize
  have hlen : (f.step (.write size nmemb buf)).bytes.length =
      max f.bytes.length (f.pos + size * nmemb) := by
    simp only [ByteFile.step]
    rw [length_overwrite _ _ _ hin, length_bufferBytes]
  refine ⟨⟨m, hsole, by rw [hlen, hsize], ?_, by rw [hd.pos, hpos]; rfl, ?_, by rw [hd.type, h.type]⟩,
    hrep⟩
  · intro q hq
    have hview : byteAt L (v'.view L) m q = byteAt L σ m q := by
      rw [hd.view]
      rfl
    rw [hlen] at hq
    rw [hview]
    simp only [ByteFile.step]
    rw [getElem?_overwrite _ _ _ hin, length_bufferBytes]
    by_cases hnew : f.pos ≤ q ∧ q < f.pos + size * nmemb
    · rw [if_pos hnew, getElem?_bufferBytes _ _ _ (by omega),
        hd.written.written q (by omega) (by omega), hpos]
    · -- An old byte: the chain was long enough for it.
      have hold : q < f.bytes.length := by omega
      have hroom := h.sole.size
      rw [← h.length] at hroom
      rw [if_neg hnew, h.bytes q hold, hd.written.kept q (by omega) (by omega)]
  · rw [hlen]
    simp only [ByteFile.step]
    omega

theorem holds_seek (h : Holds L v desc slot l f) (offset : Nat) (r : Int) (desc' : FatFileDescriptor)
    (heq : fat16_seek desc offset .set = (r, desc')) (hr : 0 ≤ r) :
    Holds L v desc' slot l (f.step (.seek offset)) := by
  unfold fat16_seek at heq
  rw [if_neg (by rw [h.type]; exact fun hne => hne rfl)] at heq
  by_cases hoff : offset ≥ desc.item.item.filesize.toNat
  · rw [if_pos hoff] at heq
    cases heq
    exact absurd hr (by decide)
  · rw [if_neg hoff] at heq
    cases heq
    have hs := h.sole
    refine ⟨⟨hs.ok, hs.inv, hs.lt, hs.handle, hs.entry, hs.list, hs.apart, hs.size, ?_⟩, h.length, h.bytes,
      rfl, ?_, h.type⟩
    · -- A file without clusters is empty, so no offset is inside it.
      intro hz
      have hsize := hs.size
      have hlist := hs.list
      have hz' : fat16_get_first_cluster desc.item.item = 0 := hz
      rw [hz'] at hlist
      have hl : l = [] := by
        rcases hlist with ⟨-, hl⟩ | hl
        · exact hl
        · exact absurd (chain_ok _ _ hl _ (chain_mem_first _ _ hl)) not_inRange_zero
      rw [hl] at hsize
      simp at hsize
      omega
    · have := h.length
      simp only [ByteFile.step]
      omega

theorem clustersOf_eq (hS : L.Small) (fat : Nat → Nat) (first : Nat) (l : List Nat)
    (h : ClusterList L fat first l) : clustersOf L fat first = l := by
  unfold clustersOf
  rcases h with ⟨h0, rfl⟩ | h
  · rw [if_pos h0]
  · have hr := chain_ok _ _ h _ (chain_mem_first _ _ h)
    rw [if_neg (fun h0 => not_inRange_zero (h0 ▸ hr))]
    exact walk_of_chain _ (fun c => decide_eq_true_iff) (small_not_eoc hS) L.clusters first l h
      (fatChain_length hS fat first l h).1

theorem holds_fileBytes (hS : L.Small) (h : Holds L v desc slot l f) :
    fileBytes L (v.view L) slot = f.bytes := by
  unfold fileBytes
  rw [h.sole.entry, clustersOf_eq hS _ _ l h.sole.list, ← h.length]
  apply List.ext_getElem?
  intro q
  by_cases hq : q < f.bytes.length
  · rw [h.bytes q hq]
    simp [hq]
  · rw [List.getElem?_eq_none (by simp; omega), List.getElem?_eq_none (by omega)]

theorem untouched_trans (σ σ' σ'' : View) (j : Nat) (h1 : Untouched L σ σ' j)
    (h2 : Untouched L σ' σ'' j) : Untouched L σ σ'' j := by
  obtain ⟨he1, hl1⟩ := h1
  obtain ⟨he2, hl2⟩ := h2
  refine ⟨by rw [he2, he1], fun l hl => ?_⟩
  obtain ⟨hl', hd'⟩ := hl1 l hl
  rw [he1] at hl2
  obtain ⟨hl'', hd''⟩ := hl2 l hl'
  exact ⟨hl'', fun x hx => by rw [hd'' x hx, hd' x hx]⟩

theorem replaces_trans (σ σ' σ'' : View) (h1 : Replaces L slot σ σ') (h2 : Replaces L slot σ' σ'') :
    Replaces L slot σ σ'' := by
  refine ⟨fun j hj => by rw [h2.dir j hj, h1.dir j hj], fun j hj hne hlive => ?_⟩
  have hu := h1.others j hj hne hlive
  refine untouched_trans _ _ _ j hu (h2.others j hj hne ?_)
  rw [hu.1]
  exact hlive

/-- The sizes of the writes stay below 2^31. -/
def Bounded (ops : List FileOp) : Prop :=
  ∀ op ∈ ops, match op with
    | .write size nmemb _ => size * nmemb < 0x80000000
    | .seek _ => True

theorem holds_run (hL : L.Wf) (hS : L.Small) (ops : List FileOp) (v : Volume) (desc : FatFileDescriptor)
    (v' : Volume) (desc' : FatFileDescriptor) (h : Succeeds ops v desc v' desc') (hb : Bounded ops)
    (l : List Nat) (f : ByteFile) (hf : Holds L v desc slot l f) :
    (∃ m, Holds L v' desc' slot m (ops.foldl ByteFile.step f)) ∧
      Replaces L slot (v.view L) (v'.view L) := by
  induction h generalizing l f with
  | nil v desc => exact ⟨⟨l, hf⟩, fun _ _ => rfl, fun _ _ _ _ => ⟨rfl, fun m hm => ⟨hm, fun _ _ => rfl⟩⟩⟩
  | cons op ops v desc r v' desc' v'' desc'' hcall hr _ ih =>
    have hb' : Bounded ops := fun o ho => hb o (List.mem_cons_of_mem _ ho)
    have hop := hb op List.mem_cons_self
    cases op with
    | write size nmemb buf =>
      obtain ⟨⟨m, hm⟩, hrep⟩ := holds_write hL hS hf size nmemb buf hop r v' desc' hcall hr
      obtain ⟨hlast, hrep'⟩ := ih hb' m _ hm
      exact ⟨hlast, replaces_trans _ _ _ hrep hrep'⟩
    | seek offset =>
      simp only [FileOp.call, Prod.mk.injEq] at hcall
      obtain ⟨rfl, rfl, rfl⟩ := hcall
      exact ih hb' l _ (holds_seek hf offset _ _ rfl hr)

/-- The write path refines a byte file: after any run of successful writes and seeks, the content on
disk, the position and the other files are what the byte file says. -/
theorem fat16_write_refines (hL : L.Wf) (hS : L.Small) (v : Volume) (hv : v.Ok L)
    (hf : FatInv L (v.view L)) (part : Nat → UInt8) (next : List (Nat → UInt8))
    (kzalloc : FatMemory) (v₁ : Volume) (desc₁ : FatFileDescriptor)
    (hopen : fat16_open v part next .write kzalloc = (v₁, .ok desc₁)) (ops : List FileOp)
    (hb : Bounded ops) (v₂ : Volume) (desc₂ : FatFileDescriptor)
    (hrun : Succeeds ops v₁ desc₁ v₂ desc₂) :
    fileBytes L (v₂.view L) desc₁.root_dir_slot.toNat = (ops.foldl ByteFile.step .empty).bytes ∧
      desc₂.pos = (ops.foldl ByteFile.step .empty).pos ∧
      ∀ j < L.rde, (j : Int) ≠ desc₁.root_dir_slot → Live ((v.view L).dir j) →
        Untouched L (v.view L) (v₂.view L) j := by
  obtain ⟨-, -, hsole⟩ := sole_open hL hS hv hf part kzalloc v₁ _ hopen
  obtain ⟨slot, hsole, hop, hblank, hrep⟩ := hsole desc₁ rfl
  have hstart : Holds L v₁ desc₁ slot [] .empty :=
    ⟨hsole, by rw [hblank.size]; rfl, fun q hq => absurd hq (Nat.not_lt_zero q), hop.pos, Nat.le_refl 0,
      hop.type⟩
  obtain ⟨⟨m, hm⟩, hrep'⟩ := holds_run hL hS ops v₁ desc₁ v₂ desc₂ hrun hb [] .empty hstart
  rw [hsole.handle, Int.toNat_natCast]
  refine ⟨holds_fileBytes hS hm, hm.pos, fun j hj hne hlive => ?_⟩
  exact (replaces_trans _ _ _ hrep hrep').others j hj (fun h => hne (by rw [h])) hlive

/-- A write over two clusters, a seek back and a second write. -/
def sampleOps : List FileOp :=
  [.write 1 700 (fun i => UInt8.ofNat i), .seek 5, .write 1 3 (fun _ => 9)]

theorem sample_refines : ∃ v desc, Succeeds sampleOps sampleB.1 sampleB.2 v desc ∧
    fileBytes sampleLayout (v.view sampleLayout) sampleB.2.root_dir_slot.toNat =
      (sampleOps.foldl ByteFile.step .empty).bytes := by
  have hrun : ∃ v desc, Succeeds sampleOps sampleB.1 sampleB.2 v desc :=
    ⟨_, _, .cons _ _ _ _ _ _ _ _ _ rfl (by decide +kernel) (.cons _ _ _ _ _ _ _ _ _ rfl
      (by decide +kernel) (.cons _ _ _ _ _ _ _ _ _ rfl (by decide +kernel) (.nil _ _)))⟩
  obtain ⟨v, desc, hrun⟩ := hrun
  refine ⟨v, desc, hrun, (fat16_write_refines sample_wf sample_small sample sample_ok sample_inv
    (cstr [66]) [] .enough sampleB.1 sampleB.2 sampleB_opens sampleOps ?_ v desc hrun).1⟩
  intro op hop
  simp only [sampleOps, List.mem_cons, List.not_mem_nil, or_false] at hop
  rcases hop with rfl | rfl | rfl
  · decide
  · trivial
  · decide

end PeachOS.Fat
