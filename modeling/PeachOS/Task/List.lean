import PeachOS.Code.Task
import PeachOS.Lib.Linked
import PeachOS.Lib.Run
import Mathlib.Tactic.SplitIfs

/-!
# The task list over whole runs

Tasks are created and freed in any order, and any task can be the current one. `task_list_remove` does not
repair the `prev` link of the next task, so the list stays well formed only if the last task is the one
that is freed.
-/

open PeachOS.Lib

namespace PeachOS

/-- The task list, with the live tasks in the order of their creation. -/
structure TaskSys where
  list : TaskList
  live : List Nat

/-- `new` has the address from `kzalloc` and the page directory from `paging_new_4gb`. -/
inductive TaskCall
  | new (task process page_directory : Nat)
  | free (task : Nat)
  | switch (task : Nat)

namespace TaskSys

def step (s : TaskSys) : TaskCall → TaskSys
  | .new task process page_directory =>
    { list := (s.list.task_new task process page_directory).2
      live := if page_directory = 0 then s.live else s.live ++ [task] }
  | .free task => { list := s.list.task_list_remove task, live := s.live.erase task }
  | .switch task => { s with list := s.list.task_switch task }

/-- No task, with anything in memory. -/
def start (task : Nat → Task) : TaskSys := { list := ⟨task, 0, 0, 0⟩, live := [] }

/-- `kzalloc` returns memory that no live task has, and the other calls get live tasks. -/
def CallOk (s : TaskSys) : TaskCall → Prop
  | .new task _ _ => task ≠ 0 ∧ task ∉ s.live
  | .free task => task ∈ s.live
  | .switch task => task ∈ s.live

instance (s : TaskSys) : (c : TaskCall) → Decidable (s.CallOk c)
  | .new _ _ _ => inferInstanceAs (Decidable (_ ∧ _))
  | .free _ => inferInstanceAs (Decidable (_ ∈ _))
  | .switch _ => inferInstanceAs (Decidable (_ ∈ _))

/-- The representation invariant. -/
structure WellFormed (s : TaskSys) : Prop where
  head_prev : s.list.task_head ≠ 0 → (s.list.task s.list.task_head).prev = 0
  tail_next : s.list.task_tail ≠ 0 → (s.list.task s.list.task_tail).next = 0
  tail_last : s.list.task_tail = s.live.getLastD 0
  links : ∀ x ∈ s.live, ∀ y ∈ s.live, (s.list.task x).next = y ↔ (s.list.task y).prev = x
  visits : Follows (fun x => (s.list.task x).next) 0 s.list.task_head s.live
  once : s.live.Nodup
  current : (s.list.current_task = 0 ↔ s.live = []) ∧
    (s.list.current_task ≠ 0 → s.list.current_task ∈ s.live)

/-- The call frees no task, or the one at the end of the list. -/
def FreesTail (s : TaskSys) : TaskCall → Prop
  | .free task => task = s.list.task_tail
  | _ => True

instance (s : TaskSys) : (c : TaskCall) → Decidable (s.FreesTail c)
  | .new _ _ _ => .isTrue trivial
  | .free _ => inferInstanceAs (Decidable (_ = _))
  | .switch _ => .isTrue trivial

end TaskSys

namespace Tasks

variable {s : TaskSys}

/-- The invariant that the proofs use. -/
structure ListInv (s : TaskSys) : Prop where
  linked : Linked (fun x => (s.list.task x).next) (fun x => (s.list.task x).prev) 0 0 s.list.task_head
    s.live s.list.task_tail
  nodup : s.live.Nodup
  current : s.list.current_task ∈ s.live ∨ s.list.current_task = 0 ∧ s.live = []

theorem head_mem (h : ListInv s) : s.list.task_head ∈ s.live ∨ s.list.task_head = 0 ∧ s.live = [] := by
  have hl := h.linked
  generalize s.live = l at hl ⊢
  cases l with
  | nil => exact Or.inr ⟨hl.1, rfl⟩
  | cons x l => exact Or.inl (hl.1 ▸ List.mem_cons_self)

theorem tail_mem (h : ListInv s) (hl : s.live ≠ []) : s.list.task_tail ∈ s.live :=
  (linked_last _ _ _ _ h.linked).resolve_left fun h0 => hl h0.1

theorem ne_zero_of_live (h : ListInv s) (x : Nat) (hx : x ∈ s.live) : x ≠ 0 := by
  rintro rfl
  exact linked_ne_nil _ _ _ _ h.linked hx

theorem wellFormed_of_inv (h : ListInv s) : s.WellFormed := by
  refine ⟨fun hne => ?_, fun hne => ?_, linked_getLastD _ _ _ _ h.linked,
    fun x hx y hy => linked_iff _ _ _ h.linked x y hx hy, linked_follows _ _ _ _ h.linked, h.nodup,
    ⟨fun h0 => ?_, fun hl => ?_⟩, fun hne => h.current.resolve_right fun h0 => hne h0.1⟩
  · have hl := h.linked
    generalize s.live = l at hl
    cases l with
    | nil => exact absurd hl.1 hne
    | cons x l =>
      rw [hl.1]
      exact hl.2.2.1
  · refine linked_last_next _ _ _ _ h.linked fun hl => hne ?_
    rw [linked_getLastD _ _ _ _ h.linked, hl]
    rfl
  · exact (h.current.resolve_left fun hm => ne_zero_of_live h _ hm h0).2
  · exact (h.current.resolve_left fun hm => by rw [hl] at hm; cases hm).1

/-! ## Creating a task -/

theorem set_task (l : TaskList) (a x : Nat) (t : Task) :
    (l.set a t).task x = if x = a then t else l.task x := rfl

theorem task_init_links (process page_directory : Nat) :
    (task_init process page_directory).2.next = 0 ∧ (task_init process page_directory).2.prev = 0 := by
  unfold task_init
  dsimp only
  split <;> exact ⟨rfl, rfl⟩

theorem inv_set (h : ListInv s) (a : Nat) (ha : a ∉ s.live) (t : Task) :
    ListInv { s with list := s.list.set a t } := by
  have hne : ∀ x ∈ s.live, (s.list.set a t).task x = s.list.task x := fun x hx =>
    if_neg (ne_of_mem_of_not_mem hx ha)
  exact ⟨linked_congr _ _ _ _ h.linked (fun x hx => by rw [hne x hx]) (fun x hx => by rw [hne x hx]),
    h.nodup, h.current⟩

theorem task_list_remove_outside (l : TaskList) (a : Nat) (hprev : (l.task a).prev = 0)
    (hh : a ≠ l.task_head) (ht : a ≠ l.task_tail) (hc : a ≠ l.current_task) :
    l.task_list_remove a = l := by
  unfold TaskList.task_list_remove
  simp only [hprev, ne_eq, not_true_eq_false, if_false, hh, ht, hc]

theorem inv_insert (h : ListInv s) (a : Nat) (ha0 : a ≠ 0) (ha : a ∉ s.live)
    (hnext : (s.list.task a).next = 0) (hprev : (s.list.task a).prev = 0) :
    ListInv { list := s.list.task_insert a, live := s.live ++ [a] } := by
  have hnodup : (s.live ++ [a]).Nodup := by
    rw [List.nodup_append]
    refine ⟨h.nodup, List.nodup_singleton a, fun x hx y hy hxy => ?_⟩
    rw [List.mem_singleton] at hy
    exact ha (by rw [← hy, ← hxy]; exact hx)
  unfold TaskList.task_insert
  split
  · -- The first task.
    rename_i hhead
    have hl : s.live = [] := by
      by_contra hl
      exact ne_zero_of_live h _ ((head_mem h).resolve_right fun h0 => hl h0.2) hhead
    rw [hl] at hnodup ⊢
    exact ⟨⟨rfl, ha0, hprev, hnext, rfl⟩, hnodup, Or.inl List.mem_cons_self⟩
  · rename_i hhead
    have hl : s.live ≠ [] := fun hl => hhead ((head_mem h).resolve_left fun hm => by
      rw [hl] at hm; cases hm).1
    have htail := tail_mem h hl
    have hat : s.list.task_tail ≠ a := fun heq => ha (heq ▸ htail)
    refine ⟨?_, hnodup, Or.inl (List.mem_append_left _ (h.current.resolve_right fun h0 => hl h0.2))⟩
    have hlink := linked_append (fun x =>
        if x = a then 0 else if x = s.list.task_tail then a else (s.list.task x).next)
      (fun x => if x = a then s.list.task_tail else (s.list.task x).prev) _ _ _ a _ h.linked ha0
      h.nodup (if_pos rfl) (if_pos rfl) (fun _ => by rw [if_neg hat, if_pos rfl])
      (fun y hy hyt => by rw [if_neg (ne_of_mem_of_not_mem hy ha), if_neg hyt])
      (fun y hy => if_neg (ne_of_mem_of_not_mem hy ha))
    rw [if_neg hl] at hlink
    refine linked_congr _ _ _ _ hlink (fun x _ => ?_) (fun x _ => ?_)
    · simp only [set_task]
      by_cases hxa : x = a
      · rw [if_pos hxa, if_pos hxa, if_neg hat.symm]
        exact hnext
      · rw [if_neg hxa, if_neg hxa]
        split <;> rfl
    · simp only [set_task]
      by_cases hxa : x = a
      · rw [if_pos hxa, if_pos hxa]
        rfl
      · rw [if_neg hxa, if_neg hxa]
        split
        · rename_i hxt
          rw [hxt]
        · rfl

theorem inv_new (h : ListInv s) (a process page_directory : Nat) (ha0 : a ≠ 0) (ha : a ∉ s.live) :
    ListInv (s.step (.new a process page_directory)) := by
  obtain ⟨hnext, hprev⟩ := task_init_links process page_directory
  have hset := inv_set h a ha (task_init process page_directory).2
  have hself : (s.list.set a (task_init process page_directory).2).task a =
      (task_init process page_directory).2 := if_pos rfl
  simp only [TaskSys.step, TaskList.task_new, if_neg ha0]
  by_cases hpd : page_directory = 0
  · have hres : (task_init process page_directory).1 < 0 := by
      unfold task_init
      dsimp only
      rw [if_pos hpd]
      show - EIO < 0
      decide
    have hout : ∀ x, x ∈ s.live ∨ x = 0 → a ≠ x := by
      rintro x hx rfl
      exact hx.elim ha ha0
    have htail : s.list.task_tail ∈ s.live ∨ s.list.task_tail = 0 :=
      (linked_last _ _ _ _ h.linked).symm.imp_right And.right
    have hrem := task_list_remove_outside (s.list.set a (task_init process page_directory).2) a
      (by rw [hself]; exact hprev) (hout _ ((head_mem h).imp_right And.left)) (hout _ htail)
      (hout _ (h.current.imp_right And.left))
    rw [if_pos hpd, if_pos hres, hrem]
    exact hset
  · have hres : ¬ (task_init process page_directory).1 < 0 := by
      unfold task_init
      dsimp only
      rw [if_neg hpd]
      exact Int.lt_irrefl 0
    rw [if_neg hpd, if_neg hres]
    exact inv_insert hset a ha0 ha (by rw [hself]; exact hnext) (by rw [hself]; exact hprev)

/-! ## Freeing a task -/

/-- The first statement of `task_list_remove`: the task before `a` gets the next one of `a`. -/
def unlink (l : TaskList) (a : Nat) : TaskList :=
  if (l.task a).prev ≠ 0 then
    l.set (l.task a).prev { l.task (l.task a).prev with next := (l.task a).next }
  else l

theorem unlink_links (l : TaskList) (a x : Nat) : ((unlink l a).task x).prev = (l.task x).prev ∧
    ((unlink l a).task x).next =
      if x = (l.task a).prev ∧ (l.task a).prev ≠ 0 then (l.task a).next else (l.task x).next := by
  unfold unlink
  by_cases h0 : (l.task a).prev ≠ 0
  · rw [if_pos h0, set_task]
    by_cases hx : x = (l.task a).prev
    · rw [if_pos hx, if_pos ⟨hx, h0⟩, hx]
      exact ⟨rfl, rfl⟩
    · rw [if_neg hx, if_neg fun h => hx h.1]
      exact ⟨rfl, rfl⟩
  · rw [if_neg h0, if_neg fun h => h0 h.2]
    exact ⟨rfl, rfl⟩

theorem unlink_globals (l : TaskList) (a : Nat) : (unlink l a).task_head = l.task_head ∧
    (unlink l a).task_tail = l.task_tail ∧ (unlink l a).current_task = l.current_task := by
  unfold unlink
  split <;> exact ⟨rfl, rfl, rfl⟩

theorem task_list_remove_spec (l : TaskList) (a : Nat) (ha : (l.task a).prev ≠ a) :
    (l.task_list_remove a).task = (unlink l a).task ∧
      (l.task_list_remove a).task_head = (if a = l.task_head then (l.task a).next else l.task_head) ∧
      (l.task_list_remove a).task_tail = (if a = l.task_tail then (l.task a).prev else l.task_tail) ∧
      (l.task_list_remove a).current_task =
        if a = l.current_task then
          if (l.task a).next = 0 then (l.task_list_remove a).task_head else (l.task a).next
        else l.current_task := by
  obtain ⟨hprev, hnext⟩ := unlink_links l a a
  rw [if_neg fun h => ha h.1.symm] at hnext
  obtain ⟨hh, ht, hc⟩ := unlink_globals l a
  have hrem : l.task_list_remove a =
      let s := unlink l a
      let s := if a = s.task_head then { s with task_head := (s.task a).next } else s
      let s := if a = s.task_tail then { s with task_tail := (s.task a).prev } else s
      if a = s.current_task then { s with current_task := s.task_get_next } else s := rfl
  rw [hrem, ← hprev, ← hnext, ← hh, ← ht, ← hc]
  clear hrem hprev hnext hh ht hc ha
  obtain ⟨task, task_head, task_tail, current_task⟩ := unlink l a
  refine ⟨?_, ?_, ?_, ?_⟩
  all_goals
    dsimp only [TaskList.task_get_next]
    split_ifs <;> simp_all

theorem inv_free (h : ListInv s) (a : Nat) (ha : a ∈ s.live) (htail : a = s.list.task_tail) :
    ListInv (s.step (.free a)) := by
  obtain ⟨l, hl⟩ : ∃ l, s.live = l ++ [a] := by
    refine ⟨s.live.dropLast, ?_⟩
    have hne : s.live ≠ [] := List.ne_nil_of_mem ha
    have hlast := linked_getLastD _ _ _ _ h.linked
    rw [List.getLastD_eq_getLast?, List.getLast?_eq_some_getLast hne, Option.getD_some] at hlast
    rw [htail, hlast, List.dropLast_append_getLast hne]
  have hnodup := h.nodup
  rw [hl] at hnodup
  obtain ⟨hnl, hal⟩ : l.Nodup ∧ a ∉ l := by
    rw [List.nodup_append] at hnodup
    exact ⟨hnodup.1, fun hm => hnodup.2.2 a hm a (List.mem_singleton_self a) rfl⟩
  have herase : s.live.erase a = l := by
    rw [hl, List.erase_append_right _ hal]
    simp
  have hpne := linked_prev_ne _ _ _ h.linked h.nodup a ha
  obtain ⟨htask, hhead, htl, hcur⟩ := task_list_remove_spec s.list a hpne
  have hnext : (s.list.task a).next = 0 := by
    have := linked_last_next _ _ _ _ h.linked (List.ne_nil_of_mem ha)
    rwa [← htail] at this
  rw [hnext] at hhead hcur
  rw [if_pos htail] at htl
  have hlink := h.linked
  rw [hl] at hlink
  have hfirst : (if a = s.list.task_head then 0 else s.list.task_head) =
      if l = [] then 0 else s.list.task_head := by
    cases l with
    | nil => rw [if_pos hlink.1.symm, if_pos rfl]
    | cons x l =>
      rw [if_neg fun heq => hal (by rw [heq, hlink.1]; exact List.mem_cons_self),
        if_neg (List.cons_ne_nil x l)]
  have hhead_mem : l ≠ [] → s.list.task_head ∈ l := by
    intro hne
    cases l with
    | nil => exact absurd rfl hne
    | cons x l =>
      rw [hlink.1]
      exact List.mem_cons_self
  have hnew := linked_remove_last (fun x => ((unlink s.list a).task x).next)
    (fun x => ((unlink s.list a).task x).prev) _ _ _ _ _ hlink hnl
    (fun hne => by
      show ((unlink s.list a).task (s.list.task a).prev).next = 0
      rw [(unlink_links s.list a _).2]
      split
      · exact hnext
      · -- A task after another one has a task before it.
        rename_i hn
        rcases linked_prev _ _ _ _ h.linked a ha with ⟨heq, -⟩ | ⟨x, hx, h1, -⟩
        · exact absurd (heq ▸ hhead_mem hne) hal
        · refine absurd ⟨rfl, ?_⟩ hn
          rw [h1]
          exact ne_zero_of_live h x hx)
    (fun y hy hyp => by rw [(unlink_links s.list a y).2, if_neg fun hh => hyp hh.1])
    (fun y hy => (unlink_links s.list a y).1)
  simp only [TaskSys.step, herase]
  refine ⟨?_, hnl, ?_⟩
  · rw [htask, hhead, htl, hfirst]
    exact hnew
  · rw [hcur, if_pos rfl, hhead, hfirst]
    by_cases hac : a = s.list.current_task
    · rw [if_pos hac]
      by_cases hnil : l = []
      · rw [if_pos hnil]
        exact Or.inr ⟨rfl, hnil⟩
      · rw [if_neg hnil]
        exact Or.inl (hhead_mem hnil)
    · rw [if_neg hac]
      have hm := h.current.resolve_right fun h0 => List.ne_nil_of_mem ha h0.2
      rw [hl] at hm
      exact Or.inl ((List.mem_append.mp hm).resolve_right fun hm =>
        hac (List.mem_singleton.mp hm).symm)

/-! ## Runs -/

theorem inv_start (task : Nat → Task) : ListInv (TaskSys.start task) :=
  ⟨⟨rfl, rfl⟩, List.nodup_nil, Or.inr ⟨rfl, rfl⟩⟩

theorem inv_step (h : ListInv s) (c : TaskCall) (hok : s.CallOk c) (htail : s.FreesTail c) :
    ListInv (s.step c) := by
  cases c with
  | new a process page_directory => exact inv_new h a process page_directory hok.1 hok.2
  | free a => exact inv_free h a hok htail
  | switch a => exact ⟨h.linked, h.nodup, Or.inl hok⟩

theorem prev_live (h : s.WellFormed) (y : Nat) (hy : y ∈ s.live) :
    (s.list.task y).prev = 0 ∨ (s.list.task y).prev ∈ s.live := by
  rcases follows_pred _ _ h.visits y hy with rfl | ⟨x, hx, hxy⟩
  · refine Or.inl (h.head_prev fun h0 => follows_ne_nil _ _ h.visits ?_)
    rwa [h0] at hy
  · rw [(h.links x hx y hy).mp hxy]
    exact Or.inr hx

/-- The task after the one that was freed still has it as `prev`. -/
theorem not_wellFormed_of_free (h : ListInv s) (a : Nat) (ha : a ∈ s.live)
    (htail : a ≠ s.list.task_tail) : ¬ (s.step (.free a)).WellFormed := by
  intro hwf
  rcases linked_next _ _ _ _ h.linked a ha with ⟨heq, -⟩ | ⟨y, hy, hay, hya⟩
  · exact htail heq
  have hne : y ≠ a := by
    rintro rfl
    exact linked_next_ne _ _ _ _ h.linked h.nodup y hy hay
  have hprev : ((s.step (.free a)).list.task y).prev = a := by
    show ((s.list.task_list_remove a).task y).prev = a
    rw [(task_list_remove_spec s.list a (linked_prev_ne _ _ _ h.linked h.nodup a ha)).1,
      (unlink_links s.list a y).1]
    exact hya
  have hlive : a ∉ (s.step (.free a)).live := h.nodup.not_mem_erase
  rcases prev_live hwf y ((List.mem_erase_of_ne hne).mpr hy) with h0 | hm
  · exact ne_zero_of_live h a ha (hprev.symm.trans h0)
  · rw [hprev] at hm
    exact hlive hm

/-- The list is well formed in every state of a run if and only if every task is freed when it is the
last one of the list. -/
theorem task_list_wellFormed_iff (task : Nat → Task) (calls : List TaskCall)
    (hok : Along TaskSys.step TaskSys.CallOk calls (TaskSys.start task)) :
    (∀ n, ((calls.take n).foldl TaskSys.step (TaskSys.start task)).WellFormed) ↔
      Along TaskSys.step TaskSys.FreesTail calls (TaskSys.start task) := by
  refine (along_states TaskSys.WellFormed calls _ (wellFormed_of_inv (inv_start task))).symm.trans ?_
  refine along_iff ListInv _ _ _ (fun s c h hc htail => ?_) (fun s c h hc htail => ?_) calls _ hok
    (inv_start task)
  · have hnext := inv_step h c hc htail
    exact ⟨hnext, wellFormed_of_inv hnext⟩
  · cases c with
    | new => exact absurd trivial htail
    | switch => exact absurd trivial htail
    | free a => exact not_wellFormed_of_free h a hc htail

theorem two_tasks_wellFormed : (([.new 16 1 1, .new 32 2 2, .switch 32, .free 32] : List TaskCall).foldl
    TaskSys.step (TaskSys.start fun _ => .zero)).WellFormed :=
  (task_list_wellFormed_iff (fun _ => .zero) [.new 16 1 1, .new 32 2 2, .switch 32, .free 32]
    ⟨by decide, by decide, by decide, by decide, trivial⟩).mpr
    ⟨trivial, trivial, trivial, by decide, trivial⟩ 4

/-- Of three tasks the second and then the third are freed. The first one still leads to the third. -/
theorem three_tasks_dangling :
    ((([.new 16 1 1, .new 32 2 2, .new 48 3 3, .free 32, .free 48] : List TaskCall).foldl
      TaskSys.step (TaskSys.start fun _ => .zero)).list.task 16).next = 48 ∧
    ¬ (([.new 16 1 1, .new 32 2 2, .new 48 3 3, .free 32, .free 48] : List TaskCall).foldl
      TaskSys.step (TaskSys.start fun _ => .zero)).WellFormed := by
  have hnext : ((([.new 16 1 1, .new 32 2 2, .new 48 3 3, .free 32, .free 48] : List TaskCall).foldl
      TaskSys.step (TaskSys.start fun _ => .zero)).list.task 16).next = 48 := by decide
  exact ⟨hnext, fun h => absurd (hnext.symm.trans h.visits.2.2) (by decide)⟩

end Tasks

end PeachOS
