import PeachOS.Shell.Refinement

/-!
# Parents, children and descriptors

What holds in every session of the program. Each property is an invariant of transcripts: one lemma for a call and its
reply, and the induction over the transcript.
-/

open PeachOS.Lib.Asm

namespace PeachOS.Shell

variable {m : Image} {s t : Core} {l : List (Request × Reply)} {p : Point}

/-! ## Parents and children -/

inductive Role
  | parent | child | done
deriving DecidableEq

def Point.role : Point → Role
  | welcome | prompt | command | goodbye | fork _ | forked _ | pid _ | pidEnd _ | wait _ | resume => .parent
  | exit => .done
  | _ => .child

/-- What a process has done so far, by its role. -/
def Role.Past (l : List (Request × Reply)) : Role → Prop
  | .parent => ParentOnly l
  | .child => ChildAfter l
  | .done => ParentOnly l ∨ ChildAfter l

theorem parent_request (h : p.role = .parent) : p.request.onFiles = false := by
  cases p <;> first | rfl | cases h

theorem request_fork (h : p.request = .fork) : ∃ line, p = .fork line := by
  cases p <;> first | exact ⟨_, rfl⟩ | cases h

theorem child_request (h : p.role = .child) : p.request.onChildren = false := by
  cases p <;> first | rfl | cases h

theorem child_cases {P : Point → Prop} (line : List UInt8) (hls : P .listing) (hcat : ∀ path, P (.openRead path))
    (hwrite : ∀ path, P (.ask path)) (hdel : ∀ path, P (.delete path)) (hother : P .unknown) :
    P (Point.child line) := by
  unfold Point.child
  split
  · exact hls
  split
  · exact hcat _
  split
  · exact hwrite _
  split
  · exact hdel _
  · exact hother

theorem child_role (line : List UInt8) : (Point.child line).role = .child :=
  child_cases (P := fun p => p.role = .child) line rfl (fun _ => rfl) (fun _ => rfl) (fun _ => rfl) rfl

theorem fork_role (line : List UInt8) (r : Reply) :
    ((Point.fork line).reply r).role = if r.eax = 0 then .child else .parent := by
  rw [Point.reply]
  by_cases hneg : neg32 r.eax = true
  · have hne : r.eax ≠ 0 := by
      rintro h
      rw [h] at hneg
      cases hneg
    rw [if_pos hneg, if_neg hne]
    rfl
  · rw [if_neg hneg]
    by_cases hzero : r.eax = 0
    · rw [if_neg (not_not.mpr hzero), if_pos hzero, child_role]
    · rw [if_pos hzero, if_neg hzero]
      rfl

theorem parent_reply (r : Reply) (h : p.role = .parent) (hfork : ∀ line, p ≠ .fork line) :
    (p.reply r).role ≠ .child := by
  cases p with
  | fork line => exact absurd rfl (hfork line)
  | command =>
    rw [Point.reply]
    split
    · decide
    · split <;> exact Role.noConfusion
  | wait n =>
    rw [Point.reply]
    split <;> exact Role.noConfusion
  | welcome | prompt | goodbye | forked | pid | pidEnd | resume => exact Role.noConfusion
  | _ => cases h

theorem child_reply (r : Reply) (h : p.role = .child) : (p.reply r).role ≠ .parent := by
  cases p with
  | entry | openRead | content | openWrite | closeWrite | delete =>
    rw [Point.reply]
    split <;> exact Role.noConfusion
  | welcome | prompt | command | goodbye | fork | forked | pid | pidEnd | wait | resume | exit => cases h
  | _ => exact Role.noConfusion

theorem parentOnly_call {q : Request} {r : Reply} (h : ParentOnly l) (hq : q.onFiles = false)
    (hr : q = .fork → r.eax ≠ 0) : ParentOnly (l ++ [(q, r)]) := by
  intro x hx
  rcases List.mem_append.mp hx with hx | hx
  · exact h x hx
  · rw [List.mem_singleton.mp hx]
    exact ⟨hq, hr⟩

theorem childAfter_call {q : Request} {r : Reply} (h : ChildAfter l) (hq : q.onChildren = false) :
    ChildAfter (l ++ [(q, r)]) := by
  obtain ⟨l₁, r₀, l₂, rfl, hr, hparent, hrest⟩ := h
  refine ⟨l₁, r₀, l₂ ++ [(q, r)], by simp, hr, hparent, fun x hx => ?_⟩
  rcases List.mem_append.mp hx with hx | hx
  · exact hrest x hx
  · rw [List.mem_singleton.mp hx]
    exact hq

theorem transcript_role (h : Transcript l p) : p.role.Past l := by
  induction h with
  | start =>
    intro x hx
    cases hx
  | call l p r _ hp ih =>
    cases hrole : p.role with
    | parent =>
      rw [hrole] at ih
      have hq := parent_request hrole
      by_cases hfork : ∃ line, p = .fork line
      · obtain ⟨line, rfl⟩ := hfork
        rw [fork_role]
        by_cases hzero : r.eax = 0
        · rw [if_pos hzero]
          exact ⟨l, r, [], rfl, hzero, ih, by simp⟩
        · rw [if_neg hzero]
          exact parentOnly_call ih hq fun _ => hzero
      · have hpast : ParentOnly (l ++ [(p.request, r)]) :=
          parentOnly_call ih hq fun h => absurd (request_fork h) hfork
        have hnot := parent_reply r hrole fun line hline => hfork ⟨line, hline⟩
        cases hnext : (p.reply r).role with
        | parent => exact hpast
        | child => exact absurd hnext hnot
        | done => exact Or.inl hpast
    | child =>
      rw [hrole] at ih
      have hpast : ChildAfter (l ++ [(p.request, r)]) := childAfter_call ih (child_request hrole)
      cases hnext : (p.reply r).role with
      | parent => exact absurd hnext (child_reply r hrole)
      | child => exact hpast
      | done => exact Or.inr hpast
    | done =>
      cases p <;> first | exact absurd rfl hp | cases hrole

/-- A process of the shell has either never touched a file, and none of its forks has returned 0, or it is a child: a
parent up to a `fork` that returned 0, which neither forks nor waits from there on. -/
theorem shell_parent_or_child (hs : Started m s) (h : Session (program m) s l t) : ParentOnly l ∨ ChildAfter l := by
  obtain ⟨p, htranscript, -⟩ := session_stands hs h
  have hpast := transcript_role htranscript
  cases hrole : p.role with
  | parent =>
    rw [hrole] at hpast
    exact Or.inl hpast
  | child =>
    rw [hrole] at hpast
    exact Or.inr hpast
  | done =>
    rw [hrole] at hpast
    exact hpast

theorem sample_parent_or_child : ∃ l t r, Session (program sampleImage) sampleCore l t ∧ l[13]? = some (.read 1 63, r) ∧
    ChildAfter l := by
  obtain ⟨l, t, -, -, -, r, hsession, -, -, -, -, hread, -⟩ := sample_session
  refine ⟨l, t, r, hsession, hread, ?_⟩
  refine (shell_parent_or_child sampleCore_started hsession).resolve_left fun h => ?_
  -- the process has read a file
  have hfiles := (h _ (List.mem_of_getElem? hread)).1
  cases hfiles

/-! ## One child at a time -/

/-- The child that a parent is busy with. -/
def Point.pending : Point → Option Nat
  | forked n | pid n | pidEnd n | wait n => some n
  | _ => none

theorem call_cases {k : Nat} {x y : Request × Reply} (hk : (l ++ [x])[k]? = some y) :
    (l[k]? = some y ∧ (l ++ [x]).take k = l.take k) ∨ (x = y ∧ (l ++ [x]).take k = l) := by
  by_cases hlt : k < l.length
  · rw [List.getElem?_append_left hlt] at hk
    exact Or.inl ⟨hk, List.take_append_of_le_length (Nat.le_of_lt hlt)⟩
  · rw [List.getElem?_append_right (by omega), List.getElem?_singleton] at hk
    split at hk
    · obtain rfl : k = l.length := by omega
      exact Or.inr ⟨Option.some.inj hk, List.take_left⟩
    · cases hk

theorem unwaited_call {q : Request} {r : Reply} {i n : Nat} (h : Unwaited (l ++ [(q, r)]) i n) :
    (Unwaited l i n ∧ ¬ (q = .wait n ∧ r.eax = 0)) ∨ (q = .fork ∧ r.eax = n ∧ n ≠ 0 ∧ neg32 n = false) := by
  obtain ⟨⟨r₀, hi, hr₀⟩, hn, hpos, hwaits⟩ := h
  by_cases hlt : i < l.length
  · rw [List.getElem?_append_left hlt] at hi
    refine Or.inl ⟨⟨⟨r₀, hi, hr₀⟩, hn, hpos, fun j r' hij hj => ?_⟩, ?_⟩
    · exact hwaits j r' hij (by rw [List.getElem?_append_left (List.getElem?_eq_some_iff.mp hj).1]; exact hj)
    · rintro ⟨rfl, hzero⟩
      exact hwaits l.length r hlt (by simp) hzero
  · rw [List.getElem?_append_right (by omega), List.getElem?_singleton] at hi
    split at hi
    · cases hi
      exact Or.inr ⟨rfl, hr₀, hn, hpos⟩
    · cases hi

theorem pending_reply {n : Nat} {r : Reply} (h : p.pending = some n) (hwait : ¬ (p.request = .wait n ∧ r.eax = 0)) :
    (p.reply r).pending = some n := by
  cases p with
  | forked k | pid k | pidEnd k => exact h
  | wait k =>
    obtain rfl : k = n := Option.some.inj h
    have hne : r.eax ≠ 0 := fun hzero => hwait ⟨rfl, hzero⟩
    rw [Point.reply, if_pos hne]
    rfl
  | _ => cases h

theorem transcript_pending (h : Transcript l p) :
    (∀ i n, Unwaited l i n → p.pending = some n) ∧
      ∀ k r, l[k]? = some (.fork, r) → ∀ i n, ¬ Unwaited (l.take k) i n := by
  induction h with
  | start =>
    refine ⟨fun i n h => ?_, fun k r hk => ?_⟩
    · obtain ⟨⟨r, hi, -⟩, -⟩ := h
      cases hi
    · cases hk
  | call l p r _ hp ih =>
    obtain ⟨hpending, hforks⟩ := ih
    refine ⟨fun i n h => ?_, fun k r' hk i n h => ?_⟩
    · rcases unwaited_call h with ⟨hold, hwait⟩ | ⟨hfork, hr, hn, hpos⟩
      · exact pending_reply (hpending i n hold) hwait
      · obtain ⟨line, rfl⟩ := request_fork hfork
        rw [← hr] at hn hpos ⊢
        rw [Point.reply, if_neg (by rw [hpos]; exact Bool.false_ne_true), if_pos hn]
        rfl
    · rcases call_cases hk with ⟨hk, htake⟩ | ⟨hlast, htake⟩
      · rw [htake] at h
        exact hforks k r' hk i n h
      · -- nothing is pending at a `fork`
        obtain ⟨line, rfl⟩ := request_fork (congrArg Prod.fst hlast)
        rw [htake] at h
        cases hpending i n h

/-- The shell forks again only when every earlier child has been waited for. -/
theorem shell_one_child (hs : Started m s) (h : Session (program m) s l t) (k : Nat) (r : Reply)
    (hk : l[k]? = some (.fork, r)) (i n : Nat) : ¬ Unwaited (l.take k) i n := by
  obtain ⟨p, htranscript, -⟩ := session_stands hs h
  exact (transcript_pending htranscript).2 k r hk i n

theorem sample_one_child :
    ∃ l t r r', Session (program sampleImage) sampleCore l t ∧ l[3]? = some (.fork, r) ∧ r.eax = 2 ∧
      l[11]? = some (.fork, r') ∧ ∀ i n, ¬ Unwaited (l.take 11) i n := by
  obtain ⟨l, t, -, r, r', -, hsession, hfork, hpid, hfork', -⟩ := sample_session
  exact ⟨l, t, r, r', hsession, hfork, hpid, hfork', shell_one_child sampleCore_started hsession 11 r' hfork'⟩

/-! ## Descriptors -/

/-- The descriptor that a point has, and its mode. -/
def Point.file : Point → Option (Nat × Nat)
  | content fd | contentText fd _ | contentEnd fd | closeRead fd => some (fd, FILE_MODE_READ)
  | store _ fd _ _ | closeWrite _ fd _ => some (fd, FILE_MODE_WRITE)
  | _ => none

theorem request_file {fd : Nat} (h : p.request.descriptor = some fd) :
    ∃ mode, p.file = some (fd, mode) ∧ ∀ n, p.request.needs = some n → n = mode := by
  cases p with
  | content | store =>
    cases h
    exact ⟨_, rfl, fun n hn => (Option.some.inj hn).symm⟩
  | closeRead | closeWrite =>
    cases h
    exact ⟨_, rfl, fun n hn => by cases hn⟩
  | _ => cases h

theorem child_file (line : List UInt8) : (Point.child line).file = none :=
  child_cases (P := fun p => p.file = none) line rfl (fun _ => rfl) (fun _ => rfl) (fun _ => rfl) rfl

theorem file_reply {fd mode : Nat} {r : Reply} (h : (p.reply r).file = some (fd, mode)) :
    p.file = some (fd, mode) ∨ ∃ path, p.request = .open_ path mode ∧ r.eax = fd ∧ fd ≠ 0 := by
  cases p with
  | openRead path | openWrite path =>
    rw [Point.reply] at h
    split at h
    · cases h
    · rename_i hne
      cases h
      exact Or.inr ⟨path, rfl, rfl, hne⟩
  | content =>
    rw [Point.reply] at h
    split at h
    · cases h
    · exact Or.inl h
  | contentText | contentEnd | store => exact Or.inl h
  | command =>
    rw [Point.reply] at h
    split at h
    · cases h
    · split at h <;> cases h
  | fork line =>
    rw [Point.reply] at h
    split at h
    · cases h
    split at h
    · cases h
    · rw [child_file] at h
      cases h
  | wait | entry | closeWrite | delete =>
    rw [Point.reply] at h
    split at h <;> cases h
  | _ => cases h

theorem transcript_descends (h : Transcript l p) :
    (∀ fd mode, p.file = some (fd, mode) → fd ≠ 0 ∧ ∃ path r, (.open_ path mode, r) ∈ l ∧ r.eax = fd) ∧
      ∀ k q r, l[k]? = some (q, r) → Descends (l.take k) q := by
  induction h with
  | start => exact ⟨fun fd mode h => (by cases h), fun k q r hk => (by cases hk)⟩
  | call l p r _ hp ih =>
    obtain ⟨hfile, hcalls⟩ := ih
    refine ⟨fun fd mode h => ?_, fun k q r' hk => ?_⟩
    · rcases file_reply h with hold | ⟨path, hreq, hr, hne⟩
      · obtain ⟨hne, path, r', hmem, hr'⟩ := hfile fd mode hold
        exact ⟨hne, path, r', List.mem_append_left _ hmem, hr'⟩
      · exact ⟨hne, path, r, by simp [hreq], hr⟩
    · rcases call_cases hk with ⟨hk, htake⟩ | ⟨hlast, htake⟩
      · rw [htake]
        exact hcalls k q r' hk
      · obtain rfl : p.request = q := congrArg Prod.fst hlast
        rw [htake]
        intro fd hfd
        obtain ⟨mode, hmode, hneeds⟩ := request_file hfd
        obtain ⟨hne, path, r₀, hmem, hr₀⟩ := hfile fd mode hmode
        exact ⟨hne, path, mode, r₀, hmem, hr₀, hneeds⟩

/-- The shell reads, writes and closes only what it has opened, in the mode that it has opened it in. -/
theorem shell_descriptors (hs : Started m s) (h : Session (program m) s l t) (k : Nat) (q : Request) (r : Reply)
    (hk : l[k]? = some (q, r)) : Descends (l.take k) q := by
  obtain ⟨p, htranscript, -⟩ := session_stands hs h
  exact (transcript_descends htranscript).2 k q r hk

theorem sample_descriptors : ∃ l t r, Session (program sampleImage) sampleCore l t ∧ l[13]? = some (.read 1 63, r) ∧
    Descends (l.take 13) (.read 1 63) := by
  obtain ⟨l, t, -, -, -, r, hsession, -, -, -, -, hread, -⟩ := sample_session
  exact ⟨l, t, r, hsession, hread, shell_descriptors sampleCore_started hsession 13 (.read 1 63) r hread⟩

/-! ## Descriptors at the exit -/

/-- What is open at a point. After a failed `cat` the descriptor is still open. -/
def Point.Held (h : List Nat) (failed : Prop) : Point → Prop
  | readError | exit => h.length ≤ 1 ∧ (h ≠ [] ↔ failed)
  | p => h = (p.file.map Prod.fst).toList ∧ ¬ failed

/-- The calls that open, read and close. -/
def Request.touches : Request → Bool
  | open_ _ _ | read _ _ | close _ => true
  | _ => false

theorem held_call (x : Request × Reply) : held (l ++ [x]) = heldAfter (held l) x := by
  rw [held, List.foldl_append]
  rfl

theorem held_open {path : List UInt8} {mode : Nat} {r : Reply} :
    held (l ++ [(.open_ path mode, r)]) = if r.eax = 0 then held l else r.eax :: held l := held_call _

theorem held_close {fd : Nat} {r : Reply} (h : held l = [fd]) : held (l ++ [(.close fd, r)]) = [] := by
  rw [held_call, h]
  exact List.erase_cons_head fd []

theorem readFailed_call {q : Request} {r : Reply} :
    ReadFailed (l ++ [(q, r)]) ↔ ReadFailed l ∨ ∃ fd n, q = .read fd n ∧ (r.eax = 0 ∨ neg32 r.eax = true) := by
  constructor
  · rintro ⟨fd, n, r', hmem, hr'⟩
    rcases List.mem_append.mp hmem with hmem | hmem
    · exact Or.inl ⟨fd, n, r', hmem, hr'⟩
    · cases List.mem_singleton.mp hmem
      exact Or.inr ⟨fd, n, rfl, hr'⟩
  · rintro (⟨fd, n, r', hmem, hr'⟩ | ⟨fd, n, rfl, hr⟩)
    · exact ⟨fd, n, r', List.mem_append_left _ hmem, hr'⟩
    · exact ⟨fd, n, r, by simp, hr⟩

theorem readFailed_other {q : Request} {r : Reply} (hq : ∀ fd n, q ≠ .read fd n) :
    ReadFailed (l ++ [(q, r)]) ↔ ReadFailed l := by
  rw [readFailed_call]
  constructor
  · rintro (h | ⟨fd, n, h, -⟩)
    · exact h
    · exact absurd h (hq fd n)
  · exact Or.inl

theorem touches_call {q : Request} {r : Reply} (hq : q.touches = false) :
    held (l ++ [(q, r)]) = held l ∧ (ReadFailed (l ++ [(q, r)]) ↔ ReadFailed l) := by
  rw [held_call]
  cases q with
  | open_ | read | close => cases hq
  | _ => exact ⟨rfl, readFailed_other fun _ _ => Request.noConfusion⟩

theorem held_nothing {h : List Nat} {failed : Prop} (hn : h = [] ∧ ¬ failed) :
    h.length ≤ 1 ∧ (h ≠ [] ↔ failed) := by
  rw [hn.1]
  exact ⟨Nat.zero_le 1, iff_of_false (fun hne => hne rfl) hn.2⟩

theorem held_child {h : List Nat} {failed : Prop} (line : List UInt8) (hn : h = [] ∧ ¬ failed) :
    (Point.child line).Held h failed :=
  child_cases (P := fun p => p.Held h failed) line hn (fun _ => hn) (fun _ => hn) (fun _ => hn) hn

theorem held_quiet {p' : Point} {r : Reply} (hq : p.request.touches = false) (h : p'.Held (held l) (ReadFailed l)) :
    p'.Held (held (l ++ [(p.request, r)])) (ReadFailed (l ++ [(p.request, r)])) := by
  obtain ⟨hheld, hfailed⟩ := touches_call (l := l) (r := r) hq
  rw [hheld, hfailed]
  exact h

theorem held_reply {r : Reply} (hp : p ≠ .exit) (h : p.Held (held l) (ReadFailed l)) :
    (p.reply r).Held (held (l ++ [(p.request, r)])) (ReadFailed (l ++ [(p.request, r)])) := by
  cases p with
  | welcome | prompt | forked | pid | pidEnd | resume | listing | indent | name | nameEnd | contentText | contentEnd
  | ask | input
  | store | written | writtenPath | deleted | deletedPath | readError => exact held_quiet rfl h
  | goodbye | writtenEnd | writeError | deletedEnd | deleteError | unknown => exact held_quiet rfl (held_nothing h)
  | command =>
    refine held_quiet rfl ?_
    rw [Point.reply]
    split
    · exact h
    · split <;> exact h
  | fork line =>
    refine held_quiet rfl ?_
    rw [Point.reply]
    split
    · exact h
    split
    · exact h
    · exact held_child line h
  | wait | delete =>
    refine held_quiet rfl ?_
    rw [Point.reply]
    split <;> exact h
  | entry =>
    refine held_quiet rfl ?_
    rw [Point.reply]
    split
    · exact h
    · exact held_nothing h
  | openRead path =>
    obtain ⟨hheld, hread⟩ := h
    rw [Point.request, held_open, readFailed_other fun _ _ => Request.noConfusion, Point.reply]
    by_cases hzero : r.eax = 0
    · rw [if_pos hzero, if_pos hzero]
      exact held_nothing ⟨hheld, hread⟩
    · rw [if_neg hzero, if_neg hzero, hheld]
      exact ⟨rfl, hread⟩
  | openWrite path count data =>
    obtain ⟨hheld, hread⟩ := h
    rw [Point.request, held_open, readFailed_other fun _ _ => Request.noConfusion, Point.reply]
    by_cases hzero : r.eax = 0
    · rw [if_pos hzero, if_pos hzero]
      exact ⟨hheld, hread⟩
    · rw [if_neg hzero, if_neg hzero, hheld]
      exact ⟨rfl, hread⟩
  | content fd =>
    obtain ⟨hheld, hread⟩ := h
    have hsame : heldAfter (held l) ((Point.content fd).request, r) = [fd] := hheld
    rw [held_call, hsame, Point.reply]
    by_cases hnone : r.eax = 0 ∨ neg32 r.eax = true
    · rw [if_pos hnone]
      exact ⟨Nat.le_refl 1, iff_of_true (List.cons_ne_nil fd []) (readFailed_call.mpr (Or.inr ⟨fd, 63, rfl, hnone⟩))⟩
    · rw [if_neg hnone]
      refine ⟨rfl, fun hfailed => ?_⟩
      rcases readFailed_call.mp hfailed with h | ⟨-, -, -, h⟩
      · exact hread h
      · exact hnone h
  | closeRead fd =>
    obtain ⟨hheld, hread⟩ := h
    have hopen : held l = [fd] := hheld
    rw [Point.request, held_close hopen, readFailed_other fun _ _ => Request.noConfusion]
    exact held_nothing ⟨rfl, hread⟩
  | closeWrite path fd result =>
    obtain ⟨hheld, hread⟩ := h
    have hopen : held l = [fd] := hheld
    rw [Point.request, held_close hopen, readFailed_other fun _ _ => Request.noConfusion, Point.reply]
    split <;> exact ⟨rfl, hread⟩
  | exit => exact absurd rfl hp

theorem transcript_held (h : Transcript l p) : p.Held (held l) (ReadFailed l) := by
  induction h with
  | start =>
    refine ⟨rfl, ?_⟩
    rintro ⟨fd, n, r, hmem, -⟩
    cases hmem
  | call l p r _ hp ih => exact held_reply hp ih

theorem request_exit (h : p.request = .exit) : p = .exit := by
  cases p <;> first | rfl | cases h

/-- A process of the shell that exits leaves one descriptor open if its `read` has failed, and else none. -/
theorem shell_exit_open {u : Core} (hs : Started m s) (h : Session (program m) s l t) (hu : Runs (program m) t u)
    (hexit : Calls (program m) u .exit) : (held l).length ≤ 1 ∧ (held l ≠ [] ↔ ReadFailed l) := by
  obtain ⟨p, htranscript, w, hw, hstands⟩ := session_stands hs h
  obtain rfl : u = w := runs_unique hu hw (calls_stops hexit) (calls_stops (stands_calls hstands))
  obtain rfl := request_exit (calls_unique (stands_calls hstands) hexit)
  exact transcript_held htranscript

theorem sample_exit_open : ∃ l t u, Session (program sampleImage) sampleCore l t ∧ Runs (program sampleImage) t u ∧
    Calls (program sampleImage) u .exit ∧ held l = [1] ∧ ReadFailed l := by
  obtain ⟨l, t, u, -, -, -, hsession, -, -, -, -, -, hheld, hu, hexit⟩ := sample_session
  have hopen := (shell_exit_open sampleCore_started hsession hu hexit).2
  exact ⟨l, t, u, hsession, hu, hexit, hheld, hopen.mp (by rw [hheld]; exact List.cons_ne_nil 1 [])⟩

end PeachOS.Shell
