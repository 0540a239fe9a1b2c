import PeachOS.Spec.Children
import PeachOS.Lib.Run
import PeachOS.Lib.Search

/-!
# Fork, exit and wait over whole runs

A process number is the index of a slot, and a slot is given out again as soon as its process has exited.
-/

open PeachOS.Lib

namespace PeachOS.Children

/-! ## One fork -/

/-- A fork that failed may have written to the memory it got. -/
structure ForkFailed (t t' : ProcessTable) (child : Nat) : Prop where
  processes : t'.processes = t.processes
  process : ∀ x, x ≠ child → t'.process x = t.process x

/-- A fork that took the slot `j`. -/
structure ForkedTo (t t' : ProcessTable) (child task j : Nat) : Prop where
  first : First (fun i => t.processes i = 0) 0 PEACHOS_MAX_PROCESSES j
  child_ne : child ≠ 0
  processes : ∀ i, t'.processes i = if i = j then child else t.processes i
  entry : t'.process child = ⟨j, task⟩
  process : ∀ x, x ≠ child → t'.process x = t.process x
  eax : t'.eax task = 0

theorem process_get_free_slot_spec (t : ProcessTable) :
    (∃ j : Nat, t.process_get_free_slot = j ∧
      First (fun i => t.processes i = 0) 0 PEACHOS_MAX_PROCESSES j) ∨
    (t.process_get_free_slot = -EISTKN ∧
      ∀ i, 0 ≤ i → i < 0 + PEACHOS_MAX_PROCESSES → t.processes i ≠ 0) :=
  search_spec t.process_get_free_slot_loop (-EISTKN) (fun _ => rfl) (fun _ _ => rfl)
    PEACHOS_MAX_PROCESSES 0

theorem slot_of_first (t : ProcessTable) (j : Nat)
    (hj : First (fun i => t.processes i = 0) 0 PEACHOS_MAX_PROCESSES j) : t.process_get_free_slot = j := by
  rcases process_get_free_slot_spec t with ⟨i, heq, hi⟩ | ⟨-, hfull⟩
  · rw [heq, first_unique hi hj]
  · exact absurd hj.holds (hfull j hj.ge hj.lt)

theorem forkFailed_set (t : ProcessTable) (child : Nat) (p : ProcessEntry) :
    ForkFailed t (t.setProcess child p) child :=
  ⟨rfl, fun _ hx => if_neg hx⟩

theorem forkFailed_trans {t t' t'' : ProcessTable} {child : Nat} (h : ForkFailed t t' child)
    (h' : ForkFailed t' t'' child) : ForkFailed t t'' child :=
  ⟨h'.processes.trans h.processes, fun x hx => (h'.process x hx).trans (h.process x hx)⟩

theorem u16_slot (j : Nat) (hj : j < PEACHOS_MAX_PROCESSES) : u16 j = j := by
  unfold u16 PEACHOS_MAX_PROCESSES at *
  omega

theorem process_fork_spec (t : ProcessTable) (memory : ForkMemory) (htask : memory.child_task ≠ 0) :
    (∃ e t', t.process_fork memory = (e, 0, t') ∧ e < 0 ∧ ForkFailed t t' memory.child) ∨
    (∃ j t', t.process_fork memory = (0, memory.child, t') ∧
      ForkedTo t t' memory.child memory.child_task j) := by
  have hmem : -ENOMEM < 0 := by decide
  unfold ProcessTable.process_fork ProcessTable.process_fork_task ProcessTable.process_fork_finish
  rcases process_get_free_slot_spec t with ⟨j, hslot, hj⟩ | ⟨hslot, -⟩
  · have hlt := hj.lt
    rw [Nat.zero_add] at hlt
    rw [hslot]
    dsimp only
    rw [if_neg (by omega), if_neg htask]
    by_cases hchild : memory.child = 0
    · rw [if_pos hchild]
      exact Or.inl ⟨_, _, rfl, hmem, rfl, fun _ _ => rfl⟩
    rw [if_neg hchild]
    have h1 := forkFailed_set t memory.child ⟨0, 0⟩
    by_cases hptr : memory.ptr = 0
    · rw [if_pos hptr]
      exact Or.inl ⟨_, _, rfl, hmem, h1⟩
    rw [if_neg hptr]
    by_cases hstack : memory.stack = 0
    · rw [if_pos hstack]
      exact Or.inl ⟨_, _, rfl, hmem, h1⟩
    rw [if_neg hstack]
    have h2 := forkFailed_trans h1 (forkFailed_set _ memory.child
      { (t.setProcess memory.child ⟨0, 0⟩).process memory.child with id := u16 j })
    have h3 := forkFailed_trans h2 (forkFailed_set _ memory.child
      { (((t.setProcess memory.child ⟨0, 0⟩).setProcess memory.child
        { (t.setProcess memory.child ⟨0, 0⟩).process memory.child with id := u16 j }).process
          memory.child) with task := memory.child_task })
    by_cases hdir : memory.page_directory = 0
    · rw [if_pos hdir]
      exact Or.inl ⟨_, _, rfl, hmem, h3⟩
    rw [if_neg hdir]
    refine Or.inr ⟨j, _, rfl, hj, hchild, fun i => rfl, ?_, h3.process, if_pos rfl⟩
    simp only [ProcessTable.setProcess, if_true, u16_slot j hlt]
  · rw [hslot]
    exact Or.inl ⟨_, t, rfl, by decide, rfl, fun _ _ => rfl⟩

theorem sys_fork_spec (t : ProcessTable) (memory : ForkMemory) (htask : memory.child_task ≠ 0) :
    (∃ e t', t.isr80h_command4_fork memory = (e, t') ∧ e < 0 ∧ ForkFailed t t' memory.child) ∨
    (∃ j : Nat, ∃ t', t.isr80h_command4_fork memory = ((j : Int), t') ∧
      (t.process_fork memory).2.1 = memory.child ∧ ForkedTo t t' memory.child memory.child_task j) := by
  unfold ProcessTable.isr80h_command4_fork
  rcases process_fork_spec t memory htask with ⟨e, t', heq, he, hf⟩ | ⟨j, t', heq, hf⟩
  · rw [heq]
    exact Or.inl ⟨e, t', if_pos he, he, hf⟩
  · rw [heq]
    refine Or.inr ⟨j, t', ?_, rfl, hf⟩
    dsimp only
    rw [if_neg (by decide), hf.entry]

/-! ## The table -/

/-- A process has the number of its slot. -/
def IdsOk (t : ProcessTable) : Prop :=
  ∀ i < PEACHOS_MAX_PROCESSES, t.processes i ≠ 0 → (t.process (t.processes i)).id = i

variable {s : ProcessSys} {t t' : ProcessTable}

theorem idsOk_failed (h : IdsOk t) (child : Nat) (hf : ForkFailed t t' child)
    (hfresh : ∀ i < PEACHOS_MAX_PROCESSES, t.processes i ≠ 0 → t.processes i ≠ child) : IdsOk t' := by
  intro i hi hne
  rw [hf.processes] at hne ⊢
  rw [hf.process _ (hfresh i hi hne)]
  exact h i hi hne

theorem idsOk_forked (h : IdsOk t) (child task j : Nat) (hf : ForkedTo t t' child task j)
    (hfresh : ∀ i < PEACHOS_MAX_PROCESSES, t.processes i ≠ 0 → t.processes i ≠ child) : IdsOk t' := by
  intro i hi hne
  rw [hf.processes] at hne ⊢
  by_cases hij : i = j
  · rw [if_pos hij, hf.entry, hij]
  · rw [if_neg hij] at hne ⊢
    rw [hf.process _ (hfresh i hi hne)]
    exact h i hi hne

theorem process_free_spec (h : IdsOk t) (i : Nat) (hi : i < PEACHOS_MAX_PROCESSES)
    (hne : t.processes i ≠ 0) :
    t.isr80h_command5_exit (t.processes i) =
      { t with processes := fun j => if j = i then 0 else t.processes j } := by
  unfold ProcessTable.isr80h_command5_exit ProcessTable.process_free
  rw [if_neg hne, h i hi hne]

theorem idsOk_freed (h : IdsOk t) (i : Nat) :
    IdsOk { t with processes := fun j => if j = i then 0 else t.processes j } := by
  intro j hj hne
  dsimp only at hne ⊢
  by_cases hji : j = i
  · rw [if_pos hji] at hne
    exact absurd rfl hne
  · rw [if_neg hji] at hne ⊢
    exact h j hj hne

theorem idsOk_start (t : ProcessTable) (h : t.Booted) : IdsOk t := by
  intro i hi hne
  by_cases h0 : i = 0
  · rw [h0]
    exact h.2.1
  · exact absurd (h.2.2 i hi h0) hne

theorem fresh_of_ok (child : Nat) (h : ¬ s.Live child) :
    ∀ i < PEACHOS_MAX_PROCESSES, s.table.processes i ≠ 0 → s.table.processes i ≠ child := by
  intro i hi hne heq
  exact h ⟨heq ▸ hne, i, hi, heq⟩

theorem idsOk_step (h : IdsOk s.table) (c : ProcessCall) (hok : s.CallOk c) : IdsOk (s.step c).table := by
  cases c with
  | fork parent memory =>
    obtain ⟨-, hfresh, htask⟩ := hok
    simp only [ProcessSys.step]
    rcases sys_fork_spec s.table memory htask with ⟨e, t', heq, -, hf⟩ | ⟨j, t', heq, -, hf⟩
    · rw [heq]
      exact idsOk_failed h _ hf (fresh_of_ok _ hfresh)
    · rw [heq]
      exact idsOk_forked h _ _ _ hf (fresh_of_ok _ hfresh)
  | exit process =>
    obtain ⟨hne, i, hi, rfl⟩ := hok
    simp only [ProcessSys.step]
    rw [process_free_spec h i hi hne]
    exact idsOk_freed h i
  | wait process pid => exact h

theorem process_get_of_lt (t : ProcessTable) (j : Nat) (hj : j < PEACHOS_MAX_PROCESSES) :
    t.process_get j = t.processes j := by
  unfold ProcessTable.process_get
  rw [if_neg (by omega), Int.toNat_natCast]

/-! ## Children -/

/-- The slot of a child that has not exited has the child, and the slot of one that has exited is empty. -/
def ChildOk (t : ProcessTable) (c : Child) : Prop :=
  ∃ i : Nat, c.pid = i ∧ i < PEACHOS_MAX_PROCESSES ∧
    if c.exited then t.processes i = 0 else t.processes i = c.child ∧ c.child ≠ 0

structure ChildrenInv (s : ProcessSys) : Prop where
  ids : IdsOk s.table
  children : ∀ c ∈ s.children, ChildOk s.table c

theorem wait_of_childOk (c : Child) (h : ChildOk t c) :
    t.isr80h_command11_wait c.pid = if c.exited then 0 else 1 := by
  obtain ⟨i, hpid, hi, hslot⟩ := h
  unfold ProcessTable.isr80h_command11_wait
  rw [hpid, process_get_of_lt t i hi]
  cases hex : c.exited with
  | true =>
    rw [hex, if_pos rfl] at hslot
    rw [hslot]
    rfl
  | false =>
    rw [hex, if_neg (by decide)] at hslot
    rw [hslot.1, if_pos hslot.2]
    rfl

theorem tracks_of_inv (h : ChildrenInv s) : s.Tracks := fun c hc => wait_of_childOk c (h.children c hc)

theorem childOk_forked (c : Child) (child task j : Nat) (hf : ForkedTo t t' child task j) (h : ChildOk t c)
    (hreuse : c.exited = true → c.pid ≠ (j : Int)) : ChildOk t' c := by
  obtain ⟨i, hpid, hi, hslot⟩ := h
  have hij : i ≠ j := by
    intro hij
    cases hex : c.exited with
    | true => exact hreuse hex (by omega)
    | false =>
      rw [hex, if_neg (by decide), hij, hf.first.holds] at hslot
      exact hslot.2 hslot.1.symm
  refine ⟨i, hpid, hi, ?_⟩
  rw [hf.processes, if_neg hij]
  exact hslot

theorem inv_fork (h : ChildrenInv s) (parent : Nat) (memory : ForkMemory)
    (hok : s.CallOk (.fork parent memory)) (hreuse : s.NoReuse (.fork parent memory)) :
    ChildrenInv (s.step (.fork parent memory)) := by
  refine ⟨idsOk_step h.ids _ hok, ?_⟩
  obtain ⟨-, -, htask⟩ := hok
  simp only [ProcessSys.step]
  rcases sys_fork_spec s.table memory htask with ⟨e, t', heq, he, hf⟩ | ⟨j, t', heq, hchild, hf⟩
  · rw [heq]
    dsimp only
    rw [if_neg (by omega)]
    intro c hc
    obtain ⟨i, hi⟩ := h.children c hc
    refine ⟨i, ?_⟩
    rwa [hf.processes]
  · have hlt := hf.first.lt
    rw [heq, hchild]
    dsimp only
    rw [if_pos (by omega)]
    intro c hc
    rcases List.mem_cons.mp hc with rfl | hc
    · refine ⟨j, rfl, by omega, ?_⟩
      rw [hf.processes, if_pos rfl]
      exact ⟨rfl, hf.child_ne⟩
    · apply childOk_forked c _ _ j hf (h.children c hc)
      intro hex
      have := hreuse c hc hex
      rwa [slot_of_first s.table j hf.first] at this

theorem inv_exit (h : ChildrenInv s) (process : Nat) (hok : s.CallOk (.exit process)) :
    ChildrenInv (s.step (.exit process)) := by
  refine ⟨idsOk_step h.ids _ hok, ?_⟩
  obtain ⟨hne, i, hi, rfl⟩ := hok
  simp only [ProcessSys.step]
  rw [process_free_spec h.ids i hi hne]
  intro c hc
  obtain ⟨c, hmem, rfl⟩ := List.mem_map.mp hc
  obtain ⟨j, hpid, hj, hslot⟩ := h.children c (List.mem_filter.mp hmem).1
  unfold Child.exit
  by_cases hchild : c.child = s.table.processes i
  · rw [if_pos hchild]
    refine ⟨j, hpid, hj, ?_⟩
    dsimp only
    rw [if_pos rfl]
    cases hex : c.exited with
    | true =>
      rw [hex, if_pos rfl] at hslot
      rw [hslot, ite_self]
    | false =>
      -- the child is in the slot that its number says
      rw [hex, if_neg (by decide)] at hslot
      have hid := h.ids j hj (by rw [hslot.1]; exact hslot.2)
      rw [hslot.1, hchild, h.ids i hi hne] at hid
      rw [if_pos hid.symm]
  · rw [if_neg hchild]
    refine ⟨j, hpid, hj, ?_⟩
    dsimp only
    have hji : c.exited = false → j ≠ i := by
      rintro hex rfl
      rw [hex, if_neg (by decide)] at hslot
      exact hchild hslot.1.symm
    cases hex : c.exited with
    | true =>
      rw [hex, if_pos rfl] at hslot
      rw [if_pos rfl, hslot, ite_self]
    | false =>
      rw [hex, if_neg (by decide)] at hslot
      rwa [if_neg (by decide), if_neg (hji hex)]

theorem inv_step (h : ChildrenInv s) (c : ProcessCall) (hok : s.CallOk c) (hreuse : s.NoReuse c) :
    ChildrenInv (s.step c) := by
  cases c with
  | fork parent memory => exact inv_fork h parent memory hok hreuse
  | exit process => exact inv_exit h process hok
  | wait process pid => exact h

theorem not_tracks_of_reuse (c : ProcessCall) (hok : s.CallOk c) (hsucc : s.Succeeds c)
    (hreuse : ¬ s.NoReuse c) : ¬ (s.step c).Tracks := by
  intro htracks
  cases c with
  | exit process => exact hreuse trivial
  | wait process pid => exact hreuse trivial
  | fork parent memory =>
    apply hreuse
    intro c hc hex hpid
    obtain ⟨-, -, htask⟩ := hok
    have hold := htracks c
    simp only [ProcessSys.step] at hold
    rcases sys_fork_spec s.table memory htask with ⟨e, t', heq, he, -⟩ | ⟨j, t', heq, -, hf⟩
    · simp only [ProcessSys.Succeeds, heq] at hsucc
      omega
    · have hlt := hf.first.lt
      rw [heq] at hold
      dsimp only at hold
      rw [if_pos (by omega), hex, hpid, slot_of_first s.table j hf.first] at hold
      have hwait := hold (List.mem_cons_of_mem _ hc)
      unfold ProcessTable.isr80h_command11_wait at hwait
      rw [process_get_of_lt t' j (by omega), hf.processes, if_pos rfl, if_pos hf.child_ne] at hwait
      exact absurd hwait (by decide)

/-- `sys_wait` is right for every child in every state of a run if no fork takes the slot of a child that has
exited while its parent is alive, and a run whose forks succeed needs that. -/
theorem wait_tracks_children (t : ProcessTable) (hboot : t.Booted) (calls : List ProcessCall)
    (hok : Along ProcessSys.step ProcessSys.CallOk calls (.start t)) :
    (Along ProcessSys.step ProcessSys.NoReuse calls (.start t) →
      ∀ n, ((calls.take n).foldl ProcessSys.step (.start t)).Tracks) ∧
    (Along ProcessSys.step ProcessSys.Succeeds calls (.start t) →
      (∀ n, ((calls.take n).foldl ProcessSys.step (.start t)).Tracks) →
      Along ProcessSys.step ProcessSys.NoReuse calls (.start t)) := by
  have hstart : ChildrenInv (.start t) := ⟨idsOk_start t hboot, fun c hc => absurd hc List.not_mem_nil⟩
  have hstates := @along_states _ _ ProcessSys.step ProcessSys.Tracks calls _ (tracks_of_inv hstart)
  constructor
  · intro hreuse
    apply hstates.mp
    refine along_of_inv ChildrenInv (fun s c => s.CallOk c ∧ s.NoReuse c) _ ?_ calls _ hstart
      (along_and calls _ hok hreuse)
    intro s c h hc
    have hnext := inv_step h c hc.1 hc.2
    exact ⟨hnext, tracks_of_inv hnext⟩
  · intro hsucc htracks
    refine (along_iff ChildrenInv (fun s c => s.CallOk c ∧ s.Succeeds c) ProcessSys.NoReuse
      (fun s c => (s.step c).Tracks) ?_ ?_ calls _ (along_and calls _ hok hsucc) hstart).mp
      (hstates.mpr htracks)
    · intro s c h hc hreuse
      have hnext := inv_step h c hc.1 hreuse
      exact ⟨hnext, tracks_of_inv hnext⟩
    · intro s c _ hc hreuse
      exact not_tracks_of_reuse c hc.1 hc.2 hreuse

/-! ## The value that fork returns -/

theorem process_get_forked (child task j : Nat) (hf : ForkedTo t t' child task j)
    (hfresh : ∀ i < PEACHOS_MAX_PROCESSES, t.processes i ≠ 0 → t.processes i ≠ child) (i : Int) :
    t'.process_get i = child ↔ i = j := by
  have hlt := hf.first.lt
  constructor
  · intro hget
    by_cases hr : i < 0 ∨ i ≥ PEACHOS_MAX_PROCESSES
    · unfold ProcessTable.process_get at hget
      rw [if_pos hr] at hget
      exact absurd hget.symm hf.child_ne
    · obtain ⟨m, rfl⟩ : ∃ m : Nat, i = m := ⟨i.toNat, by omega⟩
      rw [process_get_of_lt t' m (by omega), hf.processes] at hget
      by_cases hmj : m = j
      · rw [hmj]
      · rw [if_neg hmj] at hget
        refine absurd hget (hfresh m (by omega) ?_)
        rw [hget]
        exact hf.child_ne
  · rintro rfl
    rw [process_get_of_lt t' j (by omega), hf.processes, if_pos rfl]

theorem tellsApart_of_taken (c : ProcessCall) (hok : s.CallOk c) (h : s.SlotZeroTaken c) :
    s.TellsApart c := by
  cases c with
  | exit process => trivial
  | wait process pid => trivial
  | fork parent memory =>
    obtain ⟨-, hfresh, htask⟩ := hok
    simp only [ProcessSys.TellsApart]
    rcases sys_fork_spec s.table memory htask with ⟨e, t', heq, he, -⟩ | ⟨j, t', heq, hchild, hf⟩
    · rw [heq]
      exact fun hsucc => absurd hsucc (by dsimp only; omega)
    · rw [heq, hchild]
      have hj0 : j ≠ 0 := by
        rintro rfl
        exact h hf.first.holds
      refine fun _ => ⟨by dsimp only; omega, ?_, hf.child_ne,
        process_get_forked _ _ j hf (fresh_of_ok _ hfresh)⟩
      rw [hf.entry, hf.eax]

theorem taken_of_tellsApart (c : ProcessCall) (hok : s.CallOk c) (hsucc : s.Succeeds c)
    (h : s.TellsApart c) : s.SlotZeroTaken c := by
  cases c with
  | exit process => trivial
  | wait process pid => trivial
  | fork parent memory =>
    intro h0
    have hpos := (h hsucc).1
    simp only [ProcessSys.Succeeds] at hsucc
    rcases sys_fork_spec s.table memory hok.2.2 with ⟨e, t', heq, he, -⟩ | ⟨j, t', heq, -, hf⟩
    · rw [heq] at hsucc
      dsimp only at hsucc
      omega
    · rw [heq] at hpos
      exact hf.first.before 0 (Nat.le_refl 0) (by dsimp only at hpos; omega) h0

/-- Fork tells the parent from the child at every call of a run if slot 0 is taken whenever a process forks,
and a run whose forks succeed needs that. -/
theorem fork_tells_apart (t : ProcessTable) (hboot : t.Booted) (calls : List ProcessCall)
    (hok : Along ProcessSys.step ProcessSys.CallOk calls (.start t)) :
    (Along ProcessSys.step ProcessSys.SlotZeroTaken calls (.start t) →
      Along ProcessSys.step ProcessSys.TellsApart calls (.start t)) ∧
    (Along ProcessSys.step ProcessSys.Succeeds calls (.start t) →
      Along ProcessSys.step ProcessSys.TellsApart calls (.start t) →
      Along ProcessSys.step ProcessSys.SlotZeroTaken calls (.start t)) := by
  have hstart : IdsOk (ProcessSys.start t).table := idsOk_start t hboot
  constructor
  · intro htaken
    have hboth := along_and calls _ hok htaken
    refine along_of_inv (fun s => IdsOk s.table) _ _ ?_ calls _ hstart hboth
    intro s c h hc
    exact ⟨idsOk_step h c hc.1, tellsApart_of_taken c hc.1 hc.2⟩
  · intro hsucc htells
    have hall := along_and calls _ (along_and calls _ hok hsucc) htells
    refine along_of_inv (fun s => IdsOk s.table) _ _ ?_ calls _ hstart hall
    intro s c h hc
    exact ⟨idsOk_step h c hc.1.1, taken_of_tellsApart c hc.1.1 hc.1.2 hc.2⟩

/-! ## A shell and its children -/

/-- The shell is at address 16, in slot 0. -/
def shellTable : ProcessTable :=
  ⟨fun _ => ⟨0, 0⟩, fun i => if i = 0 then 16 else 0, fun _ => 0⟩

/-- A fork that gets memory for everything, with the child at `child`. -/
def forkOf (parent child : Nat) : ProcessCall := .fork parent ⟨child, child + 1, child + 2, child + 3, child + 4⟩

theorem shell_booted : shellTable.Booted := by
  refine ⟨by decide, rfl, ?_⟩
  intro i _ hi
  exact if_neg hi

theorem shell_live : (ProcessSys.start shellTable).Live 16 := ⟨by decide, 0, by decide, rfl⟩

theorem shell_ok : Along ProcessSys.step ProcessSys.CallOk [forkOf 16 32] (.start shellTable) := by
  refine ⟨⟨shell_live, ?_, by decide⟩, trivial⟩
  rintro ⟨-, i, hi, heq⟩
  have hslot : ∀ i < PEACHOS_MAX_PROCESSES, (ProcessSys.start shellTable).table.processes i ≠ 32 := by decide
  exact hslot i hi heq

theorem shell_waits : (([forkOf 16 32] : List ProcessCall).foldl ProcessSys.step (.start shellTable)).Tracks :=
  (wait_tracks_children shellTable shell_booted [forkOf 16 32] shell_ok).1
    ⟨fun _ hc => absurd hc List.not_mem_nil, trivial⟩ 1

/-- The shell forks a child, the child exits and the shell forks again. The shell waits for the first child and
is told that it is alive. -/
theorem shell_reuse :
    (([forkOf 16 32, .exit 32, forkOf 16 48] : List ProcessCall).foldl ProcessSys.step
      (.start shellTable)).children = [⟨16, 1, 48, false⟩, ⟨16, 1, 32, true⟩] ∧
    (([forkOf 16 32, .exit 32, forkOf 16 48] : List ProcessCall).foldl ProcessSys.step
      (.start shellTable)).table.isr80h_command11_wait 1 = 1 ∧
    ¬ (([forkOf 16 32, .exit 32, forkOf 16 48] : List ProcessCall).foldl ProcessSys.step
      (.start shellTable)).Tracks := by
  have hchildren : (([forkOf 16 32, .exit 32, forkOf 16 48] : List ProcessCall).foldl ProcessSys.step
      (.start shellTable)).children = [⟨16, 1, 48, false⟩, ⟨16, 1, 32, true⟩] := by decide
  have hwait : (([forkOf 16 32, .exit 32, forkOf 16 48] : List ProcessCall).foldl ProcessSys.step
      (.start shellTable)).table.isr80h_command11_wait 1 = 1 := by decide
  refine ⟨hchildren, hwait, ?_⟩
  intro h
  have hold := h ⟨16, 1, 32, true⟩ (by rw [hchildren]; decide)
  rw [hwait] at hold
  exact absurd hold (by decide)

theorem shell_tells_apart : Along ProcessSys.step ProcessSys.TellsApart [forkOf 16 32] (.start shellTable) :=
  (fork_tells_apart shellTable shell_booted [forkOf 16 32] shell_ok).1 ⟨shell_booted.1, trivial⟩

/-- The shell forks a child and exits. The child forks and gets 0. -/
theorem orphan_gets_zero :
    ((([forkOf 16 32, .exit 16] : List ProcessCall).foldl ProcessSys.step
      (.start shellTable)).table.isr80h_command4_fork ⟨48, 49, 50, 51, 52⟩).1 = 0 ∧
    ¬ (([forkOf 16 32, .exit 16] : List ProcessCall).foldl ProcessSys.step
      (.start shellTable)).TellsApart (forkOf 32 48) := by
  have hzero : ((([forkOf 16 32, .exit 16] : List ProcessCall).foldl ProcessSys.step
      (.start shellTable)).table.isr80h_command4_fork ⟨48, 49, 50, 51, 52⟩).1 = 0 := by decide
  refine ⟨hzero, ?_⟩
  intro h
  exact absurd (h (Int.le_of_eq hzero.symm)).1 (by decide)

end PeachOS.Children
