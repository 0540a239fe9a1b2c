import PeachOS.Keyboard
import PeachOS.Lib.Lapped
import PeachOS.Lib.Run

/-!
# The order of keys after an overflow

`keyboard_push` does not look if the cell is free. When more than a buffer of characters are unread, the cell where
the reader is holds a newer character than the cells after it.
-/

open PeachOS.Lib

namespace PeachOS

/-- The calls of an interleaving, without the characters. -/
inductive KeyOp where
  | push
  | pop
deriving DecidableEq

namespace KeyState

/-- One call on the process. `chars i` is the character that is pushed after `i` others. -/
def type (process : Nat) (chars : Nat → UInt8) (s : KeyState) : KeyOp → KeyState
  | .push => s.step (.push process (chars (s.pushed process).length))
  | .pop => s.step (.pop process)

def InOrder (s : KeyState) (process : Nat) : Prop := (s.popped process).Sublist (s.pushed process)

end KeyState

/-- Which characters of the interleaving are read. -/
def KeyOp.step (r : Lap) : KeyOp → Lap
  | .push => r.push
  | .pop => r.pop PEACHOS_KEYBOARD_BUFFER_SIZE

/-- A pop comes when a newer character than the last one read has been pushed, or no character has been lost, or a
whole buffer of characters has been read since. -/
def KeyOp.Settled (r : Lap) : KeyOp → Prop
  | .push => True
  | .pop => r.Settled PEACHOS_KEYBOARD_BUFFER_SIZE

namespace Keys

variable {s : KeyState} {process : Nat} {chars : Nat → UInt8} {r : Lap}

structure OrderInv (s : KeyState) (process : Nat) (chars : Nat → UInt8) (r : Lap) : Prop where
  holds : LapHolds 0 PEACHOS_KEYBOARD_BUFFER_SIZE (s.keyboards process).buffer chars r
  pushed : s.pushed process = (List.range r.pushed).map chars
  popped : (s.popped process).Sublist ((List.range r.next).map chars)
  last : r.next = 0 ∨ ∃ l, s.popped process = l ++ [chars (r.next - 1)]
  head : u32 (s.keyboards process).head = (s.popped process).length % 2 ^ 32
  index : (s.popped process).length % PEACHOS_KEYBOARD_BUFFER_SIZE = r.next % PEACHOS_KEYBOARD_BUFFER_SIZE
  tail : u32 (s.keyboards process).tail = r.pushed % 2 ^ 32

theorem orderInv_start (process : Nat) (chars : Nat → UInt8) : OrderInv .start process chars .start :=
  ⟨lapHolds_start fun _ => rfl, rfl, List.Sublist.refl _, Or.inl rfl, rfl, rfl, rfl⟩

theorem range_map_sublist (chars : Nat → UInt8) (m n : Nat) (h : m ≤ n) :
    ((List.range m).map chars).Sublist ((List.range n).map chars) := by
  apply List.Sublist.map
  exact List.range_sublist.mpr h

theorem inOrder_of_inv (h : OrderInv s process chars r) : s.InOrder process := by
  unfold KeyState.InOrder
  rw [h.pushed]
  exact h.popped.trans (range_map_sublist chars _ _ h.holds.next_le)

theorem orderInv_push (h0 : process ≠ 0) (h : OrderInv s process chars r) :
    OrderInv (s.type process chars .push) process chars r.push := by
  have hlen : (s.pushed process).length = r.pushed := by simp [h.pushed]
  have hidx : keyboard_get_tail_index (s.keyboards process) = r.pushed % PEACHOS_KEYBOARD_BUFFER_SIZE :=
    counter_index _ _ h.tail
  have hself := keyboard_push_self s.keyboards (chars r.pushed) h0
  rw [hidx] at hself
  unfold KeyState.type
  rw [hlen]
  refine ⟨?_, ?_, h.popped, h.last, ?_, h.index, ?_⟩
  · simp only [KeyState.step, hself]
    exact lap_push h.holds
  · simp [KeyState.step, h.pushed, Lap.push, List.range_succ]
  · simp only [KeyState.step, hself]
    exact h.head
  · simp only [KeyState.step, hself]
    exact counter_succ _ _ h.tail

theorem pop_step (h0 : process ≠ 0) (h : OrderInv s process chars r) (c : UInt8)
    (hcell : (s.keyboards process).buffer (r.next % PEACHOS_KEYBOARD_BUFFER_SIZE) = c) :
    (c = 0 → s.type process chars .pop = s) ∧
    (c ≠ 0 → (s.type process chars .pop).popped process = s.popped process ++ [c] ∧
      (s.type process chars .pop).pushed = s.pushed ∧
      (s.type process chars .pop).keyboards process = { s.keyboards process with
        buffer := fun i => if i = r.next % PEACHOS_KEYBOARD_BUFFER_SIZE then 0 else (s.keyboards process).buffer i
        head := i32 ((s.keyboards process).head + 1) }) := by
  have hidx : u32 (s.keyboards process).head % PEACHOS_KEYBOARD_BUFFER_SIZE =
      r.next % PEACHOS_KEYBOARD_BUFFER_SIZE := (counter_index _ _ h.head).trans h.index
  constructor
  · intro hc
    subst hc
    have hpop : keyboard_pop s.keyboards process = (0, s.keyboards) := by
      simp [keyboard_pop, h0, hidx, hcell]
    simp [KeyState.type, KeyState.step, hpop]
  · intro hc
    simp [KeyState.type, KeyState.step, keyboard_pop, h0, hidx, hcell, hc]

theorem orderInv_pop (h0 : process ≠ 0) (hchars : ∀ i, chars i ≠ 0) (h : OrderInv s process chars r)
    (hsettled : r.Settled PEACHOS_KEYBOARD_BUFFER_SIZE) :
    OrderInv (s.type process chars .pop) process chars (r.pop PEACHOS_KEYBOARD_BUFFER_SIZE) := by
  have hn : 0 < PEACHOS_KEYBOARD_BUFFER_SIZE := by decide
  rcases Nat.eq_or_lt_of_le h.holds.next_le with heq | hlt
  · -- The newest character has been read.
    have hcell := lap_settled h.holds hn heq hsettled
    rw [(pop_step h0 h 0 hcell).1 rfl]
    unfold Lap.pop
    rw [if_neg (by omega)]
    exact h
  · obtain ⟨hpushed, -, hmod, hor⟩ := latest_spec hlt hn
    have hcell := lap_latest hlt hn h.holds
    obtain ⟨hpopped, hsame, hkeys⟩ := (pop_step h0 h _ hcell).2 (hchars _)
    have hnext : (r.pop PEACHOS_KEYBOARD_BUFFER_SIZE).next = r.latest PEACHOS_KEYBOARD_BUFFER_SIZE + 1 := by
      simp [Lap.pop, hlt]
    have hcount : (r.pop PEACHOS_KEYBOARD_BUFFER_SIZE).pushed = r.pushed := by
      simp [Lap.pop, hlt]
    refine ⟨?_, ?_, ?_, ?_, ?_, ?_, ?_⟩
    · rw [hkeys]
      exact lap_pop hlt hn h.holds
    · rw [hsame, hcount]
      exact h.pushed
    · rw [hpopped, hnext, List.range_succ, List.map_append]
      apply List.Sublist.append
      · exact h.popped.trans (range_map_sublist chars _ _ (by omega))
      · exact List.Sublist.refl _
    · right
      rw [hnext, hpopped]
      exact ⟨_, rfl⟩
    · rw [hkeys, hpopped, List.length_append]
      exact counter_succ _ _ h.head
    · have hindex := h.index
      rw [hnext, hpopped, List.length_append, List.length_singleton]
      unfold PEACHOS_KEYBOARD_BUFFER_SIZE at *
      omega
    · rw [hkeys, hcount]
      exact h.tail

theorem orderInv_run (h0 : process ≠ 0) (hchars : ∀ i, chars i ≠ 0) (ops : List KeyOp) (s : KeyState) (r : Lap)
    (h : OrderInv s process chars r) (hsettled : Along KeyOp.step KeyOp.Settled ops r) :
    OrderInv (ops.foldl (KeyState.type process chars) s) process chars (ops.foldl KeyOp.step r) := by
  induction ops generalizing s r with
  | nil => exact h
  | cons op ops ih =>
    obtain ⟨hop, hrest⟩ := hsettled
    cases op with
    | push => exact ih _ _ (orderInv_push h0 h) hrest
    | pop => exact ih _ _ (orderInv_pop h0 hchars h hop) hrest

theorem not_sublist_after_last {α : Type} (l m : List α) (b c : α) (hm : b ∉ m) :
    ¬ (l ++ [b] ++ [c]).Sublist (m ++ [b]) := by
  intro h
  have hpair : [b, c].Sublist (m ++ [b]) := by
    apply List.Sublist.trans _ h
    rw [List.append_assoc]
    exact List.sublist_append_right l [b, c]
  have hinit : [b].Sublist m := by
    have hrev := List.reverse_sublist.mpr hpair
    simp only [List.reverse_cons, List.reverse_nil, List.nil_append, List.reverse_append, List.singleton_append]
      at hrev
    have htail : [b].Sublist m.reverse := by
      cases hrev with
      | cons _ h => exact (List.sublist_cons_self c [b]).trans h
      | cons_cons _ h => exact h
    simpa using List.reverse_sublist.mpr htail
  exact hm (List.singleton_sublist.mp hinit)

/-- One character that differs from all others, at place `n`. -/
def marked (n i : Nat) : UInt8 := if i = n then 66 else 65

theorem marked_ne (n i : Nat) : marked n i ≠ 0 := by
  unfold marked
  split <;> decide

theorem not_inOrder (h0 : process ≠ 0) (h : OrderInv s process (marked (r.pushed - 1)) r)
    (hsettled : ¬ r.Settled PEACHOS_KEYBOARD_BUFFER_SIZE) :
    ¬ (s.type process (marked (r.pushed - 1)) .pop).InOrder process := by
  -- the pop finds a character that is a round older than the last one
  obtain ⟨hnext, hge, hcell⟩ := lap_stale h.holds (by decide) hsettled
  have hpos : 1 < r.pushed := Nat.lt_of_lt_of_le (by decide) hge
  obtain ⟨l, hl⟩ := h.last.resolve_left (by omega)
  obtain ⟨hpopped, hsame, -⟩ := (pop_step h0 h _ hcell).2 (marked_ne _ _)
  unfold KeyState.InOrder
  rw [hpopped, hsame, hl, h.pushed, hnext, show r.pushed = r.pushed - 1 + 1 by omega, List.range_succ, List.map_append]
  apply not_sublist_after_last
  simp [marked]

/-- Whatever characters are typed, they are delivered in order in every state of an interleaving if and only if all
its pops are settled. -/
theorem key_order_iff (process : Nat) (h0 : process ≠ 0) (ops : List KeyOp) :
    (∀ chars : Nat → UInt8, (∀ i, chars i ≠ 0) → ∀ n,
      ((ops.take n).foldl (KeyState.type process chars) .start).InOrder process) ↔
      Along KeyOp.step KeyOp.Settled ops .start := by
  constructor
  · intro horder
    rcases along_or_first KeyOp.Settled ops Lap.start with hal | ⟨pre, op, post, rfl, hpre, hop⟩
    · exact hal
    · cases op with
      | push => exact absurd trivial hop
      | pop =>
        have hinv := orderInv_run h0 (marked_ne ((pre.foldl KeyOp.step .start).pushed - 1)) pre _ _
          (orderInv_start process _) hpre
        have hbad := horder (marked ((pre.foldl KeyOp.step .start).pushed - 1)) (marked_ne _) (pre.length + 1)
        have htake : (pre ++ KeyOp.pop :: post).take (pre.length + 1) = pre ++ [.pop] := by
          simp [List.take_append, List.take_of_length_le]
        rw [htake, List.foldl_append] at hbad
        exact absurd hbad (not_inOrder h0 hinv hop)
  · intro hsettled chars hchars n
    exact inOrder_of_inv (orderInv_run h0 hchars _ _ _ (orderInv_start process chars)
      (along_take _ ops n _ hsettled))

theorem oneKey_inOrder : Along KeyOp.step KeyOp.Settled [.push, .pop, .pop] .start ∧
    ∀ chars : Nat → UInt8, (∀ i, chars i ≠ 0) → ∀ n,
      (([KeyOp.push, .pop, .pop].take n).foldl (KeyState.type 16 chars) .start).InOrder 16 := by
  have hfirst : Lap.Settled (KeyOp.step .start .push) 1024 := by decide
  have hsecond : Lap.Settled (KeyOp.step (KeyOp.step .start .push) .pop) 1024 := by decide
  have hsettled : Along KeyOp.step KeyOp.Settled [.push, .pop, .pop] .start := ⟨trivial, hfirst, hsecond, trivial⟩
  exact ⟨hsettled, (key_order_iff 16 (by decide) [.push, .pop, .pop]).mpr hsettled⟩

theorem settled_pushes (k : Nat) (r : Lap) :
    Along KeyOp.step KeyOp.Settled (List.replicate k .push) r ∧
      (List.replicate k KeyOp.push).foldl KeyOp.step r = { r with pushed := r.pushed + k } := by
  induction k generalizing r with
  | zero => exact ⟨trivial, rfl⟩
  | succ k ih =>
    obtain ⟨hal, hfold⟩ := ih r.push
    refine ⟨⟨trivial, hal⟩, ?_⟩
    rw [List.replicate_succ, List.foldl_cons]
    refine hfold.trans ?_
    simp only [Lap.push]
    congr 1
    omega

/-- One character more than the buffer has cells, and two pops. -/
def overrun : List KeyOp := List.replicate 1025 .push ++ [.pop, .pop]

/-- `A` is typed 1024 times and `B` once. `B` is delivered first, and then an `A`. -/
theorem overrun_reorders : (overrun.foldl (KeyState.type 16 (marked 1024)) .start).popped 16 = [66, 65] ∧
    ¬ (overrun.foldl (KeyState.type 16 (marked 1024)) .start).InOrder 16 := by
  obtain ⟨hal, hfold⟩ := settled_pushes 1025 .start
  have hinv : OrderInv ((List.replicate 1025 KeyOp.push).foldl (KeyState.type 16 (marked 1024)) .start) 16 (marked 1024)
      ((List.replicate 1025 KeyOp.push).foldl KeyOp.step .start) :=
    orderInv_run (by decide) (marked_ne 1024) _ _ _ (orderInv_start 16 _) hal
  rw [hfold] at hinv
  unfold overrun
  rw [List.foldl_append]
  generalize (List.replicate 1025 KeyOp.push).foldl (KeyState.type 16 (marked 1024)) .start = s at *
  have hnone : s.popped 16 = [] := List.sublist_nil.mp hinv.popped
  have hcell := lap_latest (by decide) (by decide) hinv.holds
  have hpopped := ((pop_step (by decide) hinv _ hcell).2 (marked_ne _ _)).1
  have hafter := orderInv_pop (by decide) (marked_ne 1024) hinv (fun h => by cases h)
  have hunsettled : ¬ Lap.Settled (Lap.pop ⟨Lap.start.pushed + 1025, 0, 0⟩ 1024) 1024 := by decide
  obtain ⟨-, -, hstale⟩ := lap_stale hafter.holds (by decide) hunsettled
  have hlast := ((pop_step (by decide) hafter _ hstale).2 (marked_ne _ _)).1
  refine ⟨?_, not_inOrder (r := Lap.pop ⟨Lap.start.pushed + 1025, 0, 0⟩ 1024) (by decide) hafter hunsettled⟩
  simp only [List.foldl_cons, List.foldl_nil]
  rw [hlast, hpopped, hnone]
  decide

end Keys

end PeachOS
