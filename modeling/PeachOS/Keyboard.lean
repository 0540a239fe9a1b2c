import PeachOS.Code.Keyboard
import PeachOS.Lib.Ring
import Mathlib.Tactic.IntervalCases

/-!
# The key buffer of a process is a queue

Runs of `keyboard_push` and `keyboard_pop` on any processes. What a process pops is what was pushed to it, in
order, as long as its buffer does not overflow.
-/

open PeachOS.Lib

namespace PeachOS

/-- A call, with the process it works on. -/
inductive KeyCall where
  | push (process : Nat) (c : UInt8)
  | pop (process : Nat)

/-- The buffers, and beside them for each process what was pushed and which characters were popped. -/
structure KeyState where
  keyboards : Keyboards
  pushed : Nat → List UInt8
  popped : Nat → List UInt8

namespace KeyState

/-- No process has got a key yet. -/
def start : KeyState := ⟨fun _ => .zero, fun _ => [], fun _ => []⟩

def step (s : KeyState) : KeyCall → KeyState
  | .push process c =>
    { s with
      keyboards := keyboard_push s.keyboards process c
      pushed := fun p => if p = process then s.pushed p ++ [c] else s.pushed p }
  | .pop process =>
    let res := keyboard_pop s.keyboards process
    { s with
      keyboards := res.2
      popped := fun p => if p = process ∧ res.1 ≠ 0 then s.popped p ++ [res.1] else s.popped p }

/-- Characters of the process that were pushed and not popped. -/
def unread (s : KeyState) (process : Nat) : Nat := (s.pushed process).length - (s.popped process).length

/-- What was popped is the beginning of what was pushed, and a pop returns 0 exactly if nothing is left. -/
def Fifo (s : KeyState) (process : Nat) : Prop :=
  s.popped process <+: s.pushed process ∧
    ((keyboard_pop s.keyboards process).1 = 0 ↔ s.popped process = s.pushed process)

end KeyState

/-- The characters that are pushed to the process are not 0. -/
def KeyCall.Ok (process : Nat) : KeyCall → Prop
  | .push p c => p = process → c ≠ 0
  | .pop _ => True

namespace Keys

variable {s : KeyState} {process : Nat}

/-- The counters count modulo 2^32, and the cells are a ring with the characters that are not read. -/
structure KeyInv (s : KeyState) (process : Nat) : Prop where
  ring : ∃ l, s.pushed process = s.popped process ++ l ∧ (∀ c ∈ l, c ≠ 0) ∧
    RingHolds 0 PEACHOS_KEYBOARD_BUFFER_SIZE (s.keyboards process).buffer (s.popped process).length l
  head : u32 (s.keyboards process).head = (s.popped process).length % 2 ^ 32
  tail : u32 (s.keyboards process).tail = (s.pushed process).length % 2 ^ 32

theorem keyInv_start (process : Nat) : KeyInv .start process :=
  ⟨⟨[], rfl, by simp, ring_nil 0 fun _ => rfl⟩, rfl, rfl⟩

theorem counter_succ (x : Int) (n : Nat) (h : u32 x = n % 2 ^ 32) :
    u32 (i32 (x + 1)) = (n + 1) % 2 ^ 32 := by
  have hmod := Int.bmod_emod (x := x + 1) (m := 2 ^ 32)
  unfold u32 i32 at *
  omega

theorem counter_index (c n : Nat) (h : c = n % 2 ^ 32) :
    c % PEACHOS_KEYBOARD_BUFFER_SIZE = n % PEACHOS_KEYBOARD_BUFFER_SIZE := by
  -- 2^32 is a multiple of the size
  unfold PEACHOS_KEYBOARD_BUFFER_SIZE
  omega

theorem keyboard_push_self (keyboards : Keyboards) (c : UInt8) (h0 : process ≠ 0) :
    keyboard_push keyboards process c process = { keyboards process with
      buffer := fun i => if i = keyboard_get_tail_index (keyboards process) then c
        else (keyboards process).buffer i
      tail := i32 ((keyboards process).tail + 1) } := by
  simp [keyboard_push, h0]

theorem keyboard_push_other (keyboards : Keyboards) (p : Nat) (c : UInt8) (h : process ≠ p) :
    keyboard_push keyboards p c process = keyboards process := by
  unfold keyboard_push
  split
  · rfl
  · exact if_neg h

theorem keyboard_pop_other (keyboards : Keyboards) (p : Nat) (h : process ≠ p) :
    (keyboard_pop keyboards p).2 process = keyboards process := by
  unfold keyboard_pop
  split
  · rfl
  · dsimp only
    split
    · rfl
    · exact if_neg h

theorem keyboard_pop_spec (h0 : process ≠ 0) (l : List UInt8)
    (hring : RingHolds 0 PEACHOS_KEYBOARD_BUFFER_SIZE (s.keyboards process).buffer (s.popped process).length l)
    (hhead : u32 (s.keyboards process).head = (s.popped process).length % 2 ^ 32) :
    (keyboard_pop s.keyboards process).1 = l.headD 0 ∧
      (l.headD 0 ≠ 0 → (keyboard_pop s.keyboards process).2 process = { s.keyboards process with
        buffer := fun i =>
          if i = (s.popped process).length % PEACHOS_KEYBOARD_BUFFER_SIZE then 0
          else (s.keyboards process).buffer i
        head := i32 ((s.keyboards process).head + 1) }) ∧
      (l.headD 0 = 0 → (keyboard_pop s.keyboards process).2 = s.keyboards) := by
  have hcell := ring_head _ l (by decide) hring
  have hidx := counter_index _ _ hhead
  unfold keyboard_pop
  simp only [if_neg h0, hidx, hcell]
  generalize l.headD 0 = c
  by_cases hz : c = 0
  · simp [hz]
  · simp [hz]

theorem keyInv_push (c : UInt8) (h0 : process ≠ 0) (hc : c ≠ 0) (h : KeyInv s process)
    (hroom : (s.step (.push process c)).unread process ≤ PEACHOS_KEYBOARD_BUFFER_SIZE) :
    KeyInv (s.step (.push process c)) process := by
  obtain ⟨⟨l, hl, hnz, hring⟩, hhead, htail⟩ := h
  have hlen : (s.pushed process).length = (s.popped process).length + l.length := by simp [hl]
  have hlt : l.length < PEACHOS_KEYBOARD_BUFFER_SIZE := by
    simp only [KeyState.unread, KeyState.step, if_true, List.length_append, List.length_singleton] at hroom
    omega
  have hidx : keyboard_get_tail_index (s.keyboards process) =
      ((s.popped process).length + l.length) % PEACHOS_KEYBOARD_BUFFER_SIZE := by
    rw [← hlen]
    exact counter_index _ _ htail
  constructor
  · refine ⟨l ++ [c], ?_, ?_, ?_⟩
    · simp [KeyState.step, hl]
    · intro d hd
      rcases List.mem_append.mp hd with hd | hd
      · exact hnz d hd
      · rw [List.mem_singleton.mp hd]
        exact hc
    · simp only [KeyState.step, keyboard_push_self s.keyboards c h0, hidx]
      exact ring_push _ l c hlt hring
  · simp only [KeyState.step, keyboard_push_self s.keyboards c h0]
    exact hhead
  · simp only [KeyState.step, keyboard_push_self s.keyboards c h0, if_true, List.length_append,
      List.length_singleton]
    exact counter_succ _ _ htail

theorem keyInv_pop (h0 : process ≠ 0) (h : KeyInv s process) : KeyInv (s.step (.pop process)) process := by
  obtain ⟨⟨l, hl, hnz, hring⟩, hhead, htail⟩ := h
  obtain ⟨hres, htake, hnone⟩ := keyboard_pop_spec h0 l hring hhead
  cases l with
  | nil =>
    simp only [List.headD_nil] at hres hnone
    refine ⟨⟨[], ?_, ?_, ?_⟩, ?_, ?_⟩
    · simpa [KeyState.step, hres] using hl
    · simp
    · simpa [KeyState.step, hres, hnone] using hring
    · simpa [KeyState.step, hres, hnone] using hhead
    · simpa [KeyState.step, hres, hnone] using htail
  | cons c l =>
    have hc : c ≠ 0 := hnz c List.mem_cons_self
    simp only [List.headD_cons] at hres htake
    have hafter := htake hc
    refine ⟨⟨l, ?_, ?_, ?_⟩, ?_, ?_⟩
    · simp [KeyState.step, hres, hc, hl]
    · exact fun d hd => hnz d (List.mem_cons_of_mem c hd)
    · simp only [KeyState.step, hres, hc, ne_eq, not_false_eq_true, and_self, if_true, hafter,
        List.length_append, List.length_singleton]
      exact ring_pop _ l c hring
    · simp only [KeyState.step, hres, hc, ne_eq, not_false_eq_true, and_self, if_true, hafter,
        List.length_append, List.length_singleton]
      exact counter_succ _ _ hhead
    · simpa [KeyState.step, hafter] using htail

theorem keyInv_other (p : Nat) (h : KeyInv s process) (hp : process ≠ p) (call : KeyCall)
    (hcall : (∃ c, call = .push p c) ∨ call = .pop p) : KeyInv (s.step call) process := by
  obtain ⟨hring, hhead, htail⟩ := h
  rcases hcall with ⟨c, rfl⟩ | rfl
  · constructor <;> simpa [KeyState.step, keyboard_push_other s.keyboards p c hp, hp]
  · constructor <;> simpa [KeyState.step, keyboard_pop_other s.keyboards p hp, hp]

theorem keyInv_step (h0 : process ≠ 0) (h : KeyInv s process) (call : KeyCall) (hok : call.Ok process)
    (hroom : (s.step call).unread process ≤ PEACHOS_KEYBOARD_BUFFER_SIZE) :
    KeyInv (s.step call) process := by
  cases call with
  | push p c =>
    by_cases hp : process = p
    · subst hp
      exact keyInv_push c h0 (hok rfl) h hroom
    · exact keyInv_other p h hp _ (Or.inl ⟨c, rfl⟩)
  | pop p =>
    by_cases hp : process = p
    · subst hp
      exact keyInv_pop h0 h
    · exact keyInv_other p h hp _ (Or.inr rfl)

theorem fifo_of_inv (h0 : process ≠ 0) (h : KeyInv s process) : s.Fifo process := by
  obtain ⟨⟨l, hl, hnz, hring⟩, hhead, -⟩ := h
  obtain ⟨hres, -, -⟩ := keyboard_pop_spec h0 l hring hhead
  constructor
  · rw [hl]
    exact List.prefix_append _ _
  · rw [hres, hl]
    cases l with
    | nil => simp
    | cons c l => simpa using hnz c List.mem_cons_self

/-- In every run of pushes and pops, on this process and on others, in which the process never has more than
the size of the buffer unread, its buffer is a queue in every state. -/
theorem keyboard_fifo (process : Nat) (h0 : process ≠ 0) (calls : List KeyCall)
    (hok : ∀ call ∈ calls, call.Ok process)
    (hroom : ∀ n, ((calls.take n).foldl KeyState.step .start).unread process ≤
      PEACHOS_KEYBOARD_BUFFER_SIZE) (n : Nat) :
    ((calls.take n).foldl KeyState.step .start).Fifo process := by
  refine fifo_of_inv h0 ?_
  induction n with
  | zero => exact keyInv_start process
  | succ n ih =>
    rw [List.take_add_one]
    cases hcall : calls[n]? with
    | none => simpa [hcall] using ih
    | some call =>
      have hnext := hroom (n + 1)
      rw [List.take_add_one, hcall] at hnext
      simp only [Option.toList_some, List.foldl_append, List.foldl_cons, List.foldl_nil] at hnext ⊢
      exact keyInv_step h0 ih call (hok call (List.mem_of_getElem? hcall)) hnext

/-- Two keys, with a pop between them and one too many at the end. -/
def twoKeys : List KeyCall := [.push 16 97, .pop 16, .push 16 98, .pop 16, .pop 16]

theorem twoKeys_room (n : Nat) :
    ((twoKeys.take n).foldl KeyState.step .start).unread 16 ≤ PEACHOS_KEYBOARD_BUFFER_SIZE := by
  by_cases h : n < 5
  · interval_cases n <;> decide
  · rw [List.take_of_length_le (show twoKeys.length ≤ n by simp [twoKeys]; omega)]
    decide

theorem twoKeys_fifo : (twoKeys.foldl KeyState.step .start).popped 16 = [97, 98] ∧
    (twoKeys.foldl KeyState.step .start).Fifo 16 :=
  ⟨by decide, keyboard_fifo 16 (by decide) twoKeys (by simp [twoKeys, KeyCall.Ok]) twoKeys_room 5⟩

end Keys

end PeachOS
