import PeachOS.Shell.Child

/-!
# The program is the shell

Every session of the program with the kernel is a transcript of the shell of `Spec.Shell`, and after each answer the
program comes to its next call.
-/

open PeachOS.Lib.Asm

namespace PeachOS.Shell

variable {m : Image} {s t : Core}

theorem started_stands (h : Started m s) : ∃ u, Runs (program m) s u ∧ Stands m .welcome u := by
  have hsits : Sits m ._start 0 (above s.mem) s := ⟨h.pc, h.esp, rfl⟩
  have hloaded : Loaded m (above s.mem) := by
    intro t i hi
    have := text_room m t
    rw [above_apply (by omega), h.loaded t i hi]
  exact sits_print .welcome .msg_welcome hsits (by simp [pieces]) rfl rfl rfl (by simp) hloaded trivial

theorem stands_calls {p : Point} (h : Stands m p s) : Calls (program m) s p.request := ⟨h.int, stands_request h⟩

theorem calls_stops {q : Request} (h : Calls (program m) s q) (v : Core) : (program m).step s ≠ .next v := by
  rw [h.int]
  exact fun hstep => by cases hstep

theorem calls_unique {q q' : Request} (h : Calls (program m) s q) (h' : Calls (program m) s q') : q = q' :=
  Option.some.inj (h.request.symm.trans h'.request)

theorem session_stands {l : List (Request × Reply)} (hs : Started m s) (h : Session (program m) s l t) :
    ∃ p, Transcript l p ∧ ∃ u, Runs (program m) t u ∧ Stands m p u := by
  induction h with
  | start => exact ⟨.welcome, .start, started_stands hs⟩
  | call l t u v q r _ hrun hcalls hexit hanswers ih =>
    obtain ⟨p, htranscript, w, hw, hstands⟩ := ih
    -- the run up to a call is unique, so the session's call is the one of the point
    obtain rfl : u = w := runs_unique hrun hw (calls_stops hcalls) (calls_stops (stands_calls hstands))
    obtain rfl : q = p.request := calls_unique hcalls (stands_calls hstands)
    have hp : p ≠ .exit := by
      rintro rfl
      exact hexit rfl
    obtain ⟨z, hz, hstands'⟩ := stands_reply hstands hp hanswers
    exact ⟨p.reply r, .call l p r htranscript hp, z, hz, hstands'⟩

/-- The program refines the shell: what it has asked is a transcript, and it comes to the call that the transcript's
point asks for next. -/
theorem shell_refines {l : List (Request × Reply)} (hs : Started m s) (h : Session (program m) s l t) :
    ∃ p, Transcript l p ∧ ∃ u, Runs (program m) t u ∧ Calls (program m) u p.request := by
  obtain ⟨p, htranscript, u, hu, hstands⟩ := session_stands hs h
  exact ⟨p, htranscript, u, hu, stands_calls hstands⟩

/-! ## A session

The texts at `0x400000`, the variables behind them, and a kernel that answers with a number and the same line in every
buffer. -/

def sampleImage : Image := ⟨0x400000, 0x401000, by decide, by decide, by decide⟩

/-- The `n`-th byte of texts that are one behind the other. -/
def dataAt : List Text → Nat → UInt8
  | [], _ => 0
  | t :: ts, n => if n ≤ t.chars.length then t.chars.getD n 0 else dataAt ts (n - (t.chars.length + 1))

theorem dataAt_offset (t : Text) (ts : List Text) (ht : t ∈ ts) (i : Nat) (hi : i ≤ t.chars.length) :
    dataAt ts (Text.room (ts.takeWhile (· ≠ t)) + i) = t.chars.getD i 0 := by
  induction ts with
  | nil => cases ht
  | cons u ts ih =>
    by_cases hu : u = t
    · subst hu
      simp [dataAt, Text.room, hi]
    · have hmem : t ∈ ts := (List.mem_cons.mp ht).resolve_left (Ne.symm hu)
      rw [List.takeWhile_cons_of_pos (by simpa using hu), Text.room, dataAt, if_neg (by omega), ← ih hmem]
      congr 1
      omega

def sampleMem (x : Nat) : UInt8 := dataAt Text.all (x - 0x400000)

def sampleCore : Core where
  reg r := if r = .esp then 0x3FF000 else 0
  mem := sampleMem
  flags := ⟨false, false, false⟩
  pc := (program sampleImage).addr ._start

theorem sampleCore_started : Started sampleImage sampleCore := by
  refine ⟨rfl, rfl, fun t i hi => ?_⟩
  have hplace : sampleImage.text t + i - 0x400000 = t.offset + i := by
    have hdata : sampleImage.text t = 0x400000 + t.offset := rfl
    omega
  have hmem : sampleCore.mem = sampleMem := by simp only [sampleCore]
  rw [hmem, sampleMem, hplace]
  exact dataAt_offset t Text.all (text_mem t) i hi

/-- What the user types, each time. -/
def sampleLine : List UInt8 := ascii "cat a"

/-- The answer `v`, with the line in the buffer. -/
def answered (v : Nat) (s : Core) : Core :=
  ((s.setMem fun x =>
      if (bufferOf s).1 ≤ x ∧ x < (bufferOf s).1 + (bufferOf s).2 then sampleLine.getD (x - (bufferOf s).1) 0
      else s.mem x).setReg .eax v).goto (s.pc + 1)

def answer (v : Nat) (s : Core) : Reply := ⟨v, fun i => (answered v s).mem ((bufferOf s).1 + i)⟩

theorem answers_answered (v : Nat) (s : Core) (hv : v < 2 ^ 32) (hfits : s.reg .eax = SYS_READLINE → v < arg s 1) :
    Answers s (answer v s) (answered v s) := by
  refine ⟨rfl, ?_, ?_, hv, fun x hx => ?_, fun _ => rfl, fun h => Or.inl (hfits h)⟩
  · simp [answered]
  · simp [answered, answer]
  · simp only [answered, Core.goto_mem, Core.setReg_mem, Core.setMem_mem]
    rw [if_neg hx]

theorem session_call {p : Point} {l : List (Request × Reply)} {u : Core} (v : Nat) (h : Session (program m) s l t)
    (hu : Runs (program m) t u) (hstands : Stands m p u) (hp : p.request ≠ .exit) (hv : v < 2 ^ 32)
    (hfits : (p.call m).1 = SYS_READLINE → v < arg u 1) :
    Session (program m) s (l ++ [(p.request, answer v u)]) (answered v u) ∧
      ∃ w, Runs (program m) (answered v u) w ∧ Stands m (p.reply (answer v u)) w := by
  have ha := answers_answered v u hv fun h => hfits (hstands.eax.symm.trans h)
  refine ⟨.call l t u _ _ _ h hu (stands_calls hstands) hp ha, stands_reply hstands ?_ ha⟩
  rintro rfl
  exact hp rfl

/-- A session that has come to the point `p`. -/
def SampleAt (l : List (Request × Reply)) (p : Point) : Prop :=
  ∃ t u, Session (program sampleImage) sampleCore l t ∧ Runs (program sampleImage) t u ∧ Stands sampleImage p u

theorem sampleAt_start : SampleAt [] .welcome := by
  obtain ⟨u, hu, hstands⟩ := started_stands sampleCore_started
  exact ⟨_, u, .start, hu, hstands⟩

theorem sampleAt_call {l : List (Request × Reply)} {p : Point} (v : Nat) (h : SampleAt l p) (hp : p.request ≠ .exit)
    (hv : v < 2 ^ 32) (hline : (p.call sampleImage).1 ≠ SYS_READLINE) :
    ∃ d, SampleAt (l ++ [(p.request, ⟨v, d⟩)]) (p.reply ⟨v, d⟩) := by
  obtain ⟨t, u, hsession, hu, hstands⟩ := h
  obtain ⟨hsession', w, hw, hstands'⟩ := session_call v hsession hu hstands hp hv fun h => absurd h hline
  exact ⟨_, _, w, hsession', hw, hstands'⟩

theorem command_answer {u : Core} (h : Stands sampleImage .command u) :
    Point.command.reply (answer 5 u) = .fork sampleLine := by
  have hbuf : bufferOf u = (sampleImage.cmd_buf, 63) := by
    simp only [bufferOf, h.eax, Point.call, SYS_READLINE, h.args 0 _ rfl, h.args 1 _ rfl]
  have hdata : (List.range 63).map (answer 5 u).data = (List.range 63).map fun i => sampleLine.getD i 0 := by
    refine List.map_congr_left fun i hi => ?_
    have hlt := List.mem_range.mp hi
    simp [answer, answered, hbuf, hlt]
  have hline : cut 63 (answer 5 u).data = sampleLine := by
    rw [cut, hdata]
    decide +kernel
  have hfull : ¬ ((answer 5 u).eax = 0 ∨ neg32 (answer 5 u).eax = true) := by
    simp [answer, neg32]
  rw [Point.reply, if_neg hfull, hline, if_neg (by decide)]

theorem sampleAt_command {l : List (Request × Reply)} (h : SampleAt l .command) :
    ∃ d, SampleAt (l ++ [(.readline 63, ⟨5, d⟩)]) (.fork sampleLine) := by
  obtain ⟨t, u, hsession, hu, hstands⟩ := h
  obtain ⟨hsession', w, hw, hstands'⟩ := session_call 5 hsession hu hstands (by decide) (by decide)
    fun _ => by rw [hstands.args 1 63 rfl]; decide
  exact ⟨_, _, w, hsession', hw, command_answer hstands ▸ hstands'⟩

theorem child_sampleLine : Point.child sampleLine = .openRead (ascii "0:/a") := by
  rw [Point.child, if_neg (by decide), if_pos (by decide)]
  rfl

theorem sample_parent : ∃ l r, SampleAt l (.fork sampleLine) ∧ l.length = 11 ∧ l[3]? = some (.fork, r) ∧ r.eax = 2 ∧
    held l = [] := by
  obtain ⟨_, (h : SampleAt _ .prompt)⟩ := sampleAt_call 0 sampleAt_start (by decide) (by decide) (by decide)
  obtain ⟨_, (h : SampleAt _ .command)⟩ := sampleAt_call 0 h (by decide) (by decide) (by decide)
  obtain ⟨_, h⟩ := sampleAt_command h
  obtain ⟨_, (h : SampleAt _ (.forked 2))⟩ := sampleAt_call 2 h (by decide) (by decide) (by decide)
  obtain ⟨_, (h : SampleAt _ (.pid 2))⟩ := sampleAt_call 0 h (by decide) (by decide) (by decide)
  obtain ⟨_, (h : SampleAt _ (.pidEnd 2))⟩ := sampleAt_call 0 h (by decide) (by decide) (by decide)
  obtain ⟨_, (h : SampleAt _ (.wait 2))⟩ := sampleAt_call 0 h (by decide) (by decide) (by decide)
  obtain ⟨_, (h : SampleAt _ .resume)⟩ := sampleAt_call 0 h (by decide) (by decide) (by decide)
  obtain ⟨_, (h : SampleAt _ .prompt)⟩ := sampleAt_call 0 h (by decide) (by decide) (by decide)
  obtain ⟨_, (h : SampleAt _ .command)⟩ := sampleAt_call 0 h (by decide) (by decide) (by decide)
  obtain ⟨_, h⟩ := sampleAt_command h
  exact ⟨_, _, h, rfl, rfl, rfl, rfl⟩

theorem sample_child {l : List (Request × Reply)} (h : SampleAt l (.fork sampleLine)) :
    ∃ d₁ d₂ d₃ d₄, SampleAt ((((l ++ [(.fork, ⟨0, d₁⟩)]) ++ [(.open_ (ascii "0:/a") FILE_MODE_READ, ⟨1, d₂⟩)]) ++
      [(.read 1 63, ⟨0, d₃⟩)]) ++ [(.print (Text.chars .msg_err_read), ⟨0, d₄⟩)]) .exit := by
  obtain ⟨d₁, (h : SampleAt _ (.child sampleLine))⟩ := sampleAt_call 0 h (by decide) (by decide) (by decide)
  rw [child_sampleLine] at h
  obtain ⟨d₂, (h : SampleAt _ (.content 1))⟩ := sampleAt_call 1 h (by decide) (by decide) (by decide)
  obtain ⟨d₃, (h : SampleAt _ .readError)⟩ := sampleAt_call 0 h (by decide) (by decide) (by decide)
  obtain ⟨d₄, h⟩ := sampleAt_call 0 h (by decide) (by decide) (by decide)
  exact ⟨d₁, d₂, d₃, d₄, h⟩

theorem sample_session : ∃ l t u r₁ r₂ r₃, Session (program sampleImage) sampleCore l t ∧
    l[3]? = some (.fork, r₁) ∧ r₁.eax = 2 ∧ l[11]? = some (.fork, r₂) ∧ r₂.eax = 0 ∧ l[13]? = some (.read 1 63, r₃) ∧
    held l = [1] ∧ Runs (program sampleImage) t u ∧ Calls (program sampleImage) u .exit := by
  obtain ⟨l, r, hparent, hlen, hfork, hpid, hheld⟩ := sample_parent
  obtain ⟨d₁, d₂, d₃, d₄, t, u, hsession, hu, hstands⟩ := sample_child hparent
  refine ⟨_, t, u, r, ⟨0, d₁⟩, ⟨0, d₃⟩, hsession, ?_, hpid, ?_, rfl, ?_, ?_, hu, stands_calls hstands⟩
  · simp only [List.append_assoc]
    rw [List.getElem?_append_left (by omega), hfork]
  · simp only [List.append_assoc]
    rw [List.getElem?_append_right (by omega), hlen]
    rfl
  · simp only [List.append_assoc]
    rw [List.getElem?_append_right (by omega), hlen]
    rfl
  · simp only [held, List.foldl_append]
    rw [← held, hheld]
    rfl

theorem sample_shell_refines :
    ∃ l t r p u, Session (program sampleImage) sampleCore l t ∧ l[13]? = some (.read 1 63, r) ∧ Transcript l p ∧
      Runs (program sampleImage) t u ∧ Calls (program sampleImage) u p.request := by
  obtain ⟨l, t, -, -, -, r, hsession, -, -, -, -, hread, -⟩ := sample_session
  obtain ⟨p, htranscript, u, hu, hcalls⟩ := shell_refines sampleCore_started hsession
  exact ⟨l, t, r, p, u, hsession, hread, htranscript, hu, hcalls⟩

end PeachOS.Shell
