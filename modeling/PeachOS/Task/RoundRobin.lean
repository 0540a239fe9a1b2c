import PeachOS.Code.Interrupt
import PeachOS.Lib.Cycle
import PeachOS.Task.List

/-!
# The timer gives every task its turn

A tick in user mode goes from the current task to the next one in the list, and from the last one to the first. With
one task there is nothing to switch to, and the handler leaves everything as it is but the saved registers.
-/

open PeachOS.Lib

namespace PeachOS

namespace Running

/-- One tick of the timer. -/
def tick (s : Running) (frame : InterruptFrame) : Running := (s.int20h_handler frame).2

/-- The state after `i` ticks. -/
def after (s : Running) (frames : List InterruptFrame) (i : Nat) : Running := (frames.take i).foldl tick s

/-- `current_process` is the process of the current task. -/
def InStep (s : Running) : Prop := s.current_process = (s.tasks.task s.tasks.current_task).process

/-- Each task of the list becomes the current one once, the first current task is so again at the end, and
`current_process` goes with the current task all the time. -/
structure RoundRobin (s : Running) (live : List Nat) (frames : List InterruptFrame) : Prop where
  visits : ((List.range frames.length).map fun i => (s.after frames (i + 1)).tasks.current_task).Perm live
  returns : (s.after frames frames.length).tasks.current_task = s.tasks.current_task
  inStep : s.InStep → ∀ i, (s.after frames i).InStep

end Running

namespace Tasks

open Running

variable {s s' s'' : Running}

/-- What a tick does not change: the list, and which process a task belongs to. -/
structure SameList (s s' : Running) : Prop where
  head : s'.tasks.task_head = s.tasks.task_head
  next : ∀ x, (s'.tasks.task x).next = (s.tasks.task x).next
  process : ∀ x, (s'.tasks.task x).process = (s.tasks.task x).process

theorem sameList_trans (h : SameList s s') (h' : SameList s' s'') : SameList s s'' :=
  ⟨h'.head.trans h.head, fun x => (h'.next x).trans (h.next x), fun x => (h'.process x).trans (h.process x)⟩

theorem sameList_save (s : Running) (frame : InterruptFrame) :
    SameList s { s with tasks := s.tasks.task_save_state s.tasks.current_task frame } := by
  refine ⟨rfl, ?_, ?_⟩
  · intro x
    simp only [TaskList.task_save_state, set_task]
    split
    · rename_i hx
      rw [hx]
    · rfl
  · intro x
    simp only [TaskList.task_save_state, set_task]
    split
    · rename_i hx
      rw [hx]
    · rfl

theorem tick_user (s : Running) (frame : InterruptFrame) (hcur : s.tasks.current_task ≠ 0)
    (huser : frame.cs &&& 0x3 = 3) (hnext : s.tasks.task_get_next ≠ 0) :
    SameList s (s.tick frame) ∧ (s.tick frame).tasks.current_task = s.tasks.task_get_next ∧
      (s.InStep → (s.tick frame).InStep) := by
  have hsave := sameList_save s frame
  generalize hsaved : ({ s with tasks := s.tasks.task_save_state s.tasks.current_task frame } : Running) = saved
    at hsave
  have hcurrent : saved.tasks.current_task = s.tasks.current_task := by
    rw [← hsaved]
    rfl
  have hproc : saved.current_process = s.current_process := by
    rw [← hsaved]
  have hget : saved.tasks.task_get_next = s.tasks.task_get_next := by
    unfold TaskList.task_get_next
    rw [hcurrent, hsave.next, hsave.head]
  have htick : s.tick frame = if saved.tasks.task_get_next = 0 ∨
      saved.tasks.task_get_next = saved.tasks.current_task then saved
      else saved.task_switch saved.tasks.task_get_next := by
    subst hsaved
    unfold tick int20h_handler
    rw [if_neg hcur, if_neg (not_not.mpr huser)]
    dsimp only
    split <;> rfl
  rw [htick, hget, hcurrent]
  by_cases hsame : s.tasks.task_get_next = s.tasks.current_task
  · -- The only task: the handler declines to switch.
    rw [if_pos (Or.inr hsame)]
    refine ⟨hsave, by rw [hcurrent, hsame], ?_⟩
    intro hstep
    unfold InStep at *
    rw [hproc, hcurrent, hsave.process, hstep]
  · rw [if_neg (by simp [hnext, hsame])]
    exact ⟨⟨hsave.head, hsave.next, hsave.process⟩, rfl, fun _ => rfl⟩

theorem after_succ (s : Running) (frames : List InterruptFrame) (i : Nat) (hi : i < frames.length) :
    s.after frames (i + 1) = (s.after frames i).tick frames[i] := by
  unfold after
  rw [List.take_succ_eq_append_getElem hi, List.foldl_append]
  rfl

/-- For a well-formed list of any number of tasks, and any of them current. -/
theorem round_robin (s : Running) (live : List Nat) (hwf : TaskSys.WellFormed ⟨s.tasks, live⟩) (hne : live ≠ [])
    (frames : List InterruptFrame) (hlen : frames.length = live.length)
    (huser : ∀ frame ∈ frames, frame.cs &&& 0x3 = 3) : s.RoundRobin live frames := by
  have hfollows : Follows (fun x => (s.tasks.task x).next) 0 s.tasks.task_head live := hwf.visits
  have hzero : 0 ∉ live := follows_ne_nil _ _ hfollows
  have hmem : s.tasks.current_task ∈ live := by
    apply hwf.current.2
    intro h0
    exact hne (hwf.current.1.mp h0)
  -- As long as a live task is current, a tick goes on to the next one.
  have hstep : ∀ i < frames.length, SameList s (s.after frames i) → (s.after frames i).tasks.current_task ∈ live →
      SameList s (s.after frames (i + 1)) ∧
      (s.after frames (i + 1)).tasks.current_task =
        around (fun x => (s.tasks.task x).next) 0 s.tasks.task_head (s.after frames i).tasks.current_task ∧
      ((s.after frames i).InStep → (s.after frames (i + 1)).InStep) := by
    intro i hi hsame hlive
    obtain ⟨j, hj⟩ := List.getElem?_of_mem hlive
    have hget : (s.after frames i).tasks.task_get_next =
        around (fun x => (s.tasks.task x).next) 0 s.tasks.task_head (s.after frames i).tasks.current_task := by
      unfold TaskList.task_get_next around
      rw [hsame.next, hsame.head]
    have hnext : (s.after frames i).tasks.task_get_next ∈ live := by
      rw [hget]
      exact List.mem_of_getElem? (around_getElem? _ _ hfollows j _ hj)
    obtain ⟨hsame', hcur', hin⟩ := tick_user (s.after frames i) frames[i] (fun h0 => hzero (h0 ▸ hlive))
      (huser _ (List.getElem_mem hi)) (fun h0 => hzero (h0 ▸ hnext))
    rw [after_succ s frames i hi, ← hget]
    exact ⟨sameList_trans hsame hsame', hcur', hin⟩
  have hall : ∀ i ≤ frames.length, SameList s (s.after frames i) ∧ (s.after frames i).tasks.current_task ∈ live ∧
      (s.InStep → (s.after frames i).InStep) := by
    intro i hi
    induction i with
    | zero => exact ⟨⟨rfl, fun _ => rfl, fun _ => rfl⟩, hmem, id⟩
    | succ i ih =>
      obtain ⟨hsame, hlive, hin⟩ := ih (by omega)
      obtain ⟨hsame', hcur', hin'⟩ := hstep i (by omega) hsame hlive
      obtain ⟨j, hj⟩ := List.getElem?_of_mem hlive
      refine ⟨hsame', ?_, fun h0 => hin' (hin h0)⟩
      rw [hcur']
      exact List.mem_of_getElem? (around_getElem? _ _ hfollows j _ hj)
  obtain ⟨hperm, hback, -⟩ := walk_perm _ _ hfollows (fun i => (s.after frames i).tasks.current_task) hmem
    (fun i hi _ => (hstep i (by omega) (hall i (by omega)).1 (hall i (by omega)).2.1).2.1)
  refine ⟨by rw [hlen]; exact hperm, by rw [hlen]; exact hback, ?_⟩
  intro hin i
  rcases Nat.le_total i frames.length with hle | hge
  · exact (hall i hle).2.2 hin
  · have hend : s.after frames i = s.after frames frames.length := by
      unfold after
      rw [List.take_of_length_le hge, List.take_length]
    rw [hend]
    exact (hall _ (Nat.le_refl _)).2.2 hin

/-- Three tasks, the second one is current. -/
def threeTasks : TaskSys :=
  [TaskCall.new 16 1 1, .new 32 2 2, .new 48 3 3, .switch 32].foldl TaskSys.step (TaskSys.start fun _ => .zero)

theorem threeTasks_wellFormed : threeTasks.WellFormed := by
  have h1 := inv_step (inv_start fun _ => .zero) (.new 16 1 1) (by decide) trivial
  have h2 := inv_step h1 (.new 32 2 2) (by decide) trivial
  have h3 := inv_step h2 (.new 48 3 3) (by decide) trivial
  exact wellFormed_of_inv (inv_step h3 (.switch 32) (by decide) trivial)

/-- A frame from user mode. -/
def userFrame : InterruptFrame := ⟨0, 0, 0, 0, 0, 0, 0, 0, 0, 0x1b, 0, 0, 0⟩

theorem threeTasks_round : threeTasks.live = [16, 32, 48] ∧
    Running.RoundRobin ⟨threeTasks.list, 2⟩ threeTasks.live [userFrame, userFrame, userFrame] :=
  ⟨by decide, round_robin ⟨threeTasks.list, 2⟩ threeTasks.live threeTasks_wellFormed (by decide)
    [userFrame, userFrame, userFrame] rfl (by simp [userFrame])⟩

end Tasks

end PeachOS
