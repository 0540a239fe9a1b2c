import Mathlib.Tactic.Common
import Mathlib.Algebra.Order.Group.Nat

/-!
# 32-bit assembly

A processor that runs labelled blocks of instructions, for the instructions of small programs: moves, the stack, some
arithmetic, jumps, calls, string stores and ports. Registers and words are numbers below `2 ^ 32`, memory is bytes. A
code address is the number of an instruction, since a program only uses one to return to it. The direction flag is
clear.

An instruction that needs the world outside (`int`, `in`, `out`) is an event of the run. What is in between is silent,
and `Runs` is about that.
-/

namespace PeachOS.Lib.Asm

inductive Gpr
  | eax | ecx | edx | ebx | esp | ebp | esi | edi
deriving DecidableEq

/-- `[base + disp]`, or `[disp]`. -/
structure Addr where
  base : Option Gpr
  disp : Nat

/-- In a byte instruction, a register stands for its low byte. -/
inductive Operand
  | imm (n : Nat)
  | reg (r : Gpr)
  | mem (a : Addr)

inductive Cond
  | z | nz | s | l | le

inductive Ins (Label : Type)
  | mov (d s : Operand)
  | movb (d s : Operand)
  | lea (d : Gpr) (a : Addr)
  | push (s : Operand)
  | pop (d : Gpr)
  | add (d s : Operand)
  | addb (d s : Operand)
  | inc (d : Operand)
  | dec (d : Operand)
  | xor (d s : Operand)
  | or (d s : Operand)
  | shr (d : Operand) (n : Nat)
  | div (s : Operand)
  | test (a b : Operand)
  | testb (a b : Operand)
  | cmp (a b : Operand)
  | cmpb (a b : Operand)
  | jmp (l : Label)
  | jcc (c : Cond) (l : Label)
  | loop (l : Label)
  | call (l : Label)
  | ret
  | rep_stosb
  | int (n : Nat)
  | in_al_dx
  | out_dx_al
  | rep_insw

/-! ## Memory -/

def load32 (mem : Nat → UInt8) (a : Nat) : Nat :=
  (mem a).toNat + 0x100 * (mem (a + 1)).toNat + 0x10000 * (mem (a + 2)).toNat + 0x1000000 * (mem (a + 3)).toNat

def store32 (mem : Nat → UInt8) (a v : Nat) : Nat → UInt8 :=
  fun x => if a ≤ x ∧ x < a + 4 then UInt8.ofNat (v / 0x100 ^ (x - a)) else mem x

def storeByte (mem : Nat → UInt8) (a : Nat) (b : UInt8) : Nat → UInt8 := fun x => if x = a then b else mem x

theorem load32_lt (mem : Nat → UInt8) (a : Nat) : load32 mem a < 2 ^ 32 := by
  have h0 := (mem a).toNat_lt
  have h1 := (mem (a + 1)).toNat_lt
  have h2 := (mem (a + 2)).toNat_lt
  have h3 := (mem (a + 3)).toNat_lt
  unfold load32
  omega

theorem load32_congr (mem mem' : Nat → UInt8) (a : Nat) (h : ∀ x, a ≤ x → x < a + 4 → mem x = mem' x) :
    load32 mem a = load32 mem' a := by
  unfold load32
  rw [h a (by omega) (by omega), h (a + 1) (by omega) (by omega), h (a + 2) (by omega) (by omega),
    h (a + 3) (by omega) (by omega)]

theorem store32_out (mem : Nat → UInt8) (a v x : Nat) (h : x < a ∨ a + 4 ≤ x) : store32 mem a v x = mem x :=
  if_neg (by omega)

theorem storeByte_out (mem : Nat → UInt8) (a : Nat) (b : UInt8) (x : Nat) (h : x ≠ a) :
    storeByte mem a b x = mem x := if_neg h

@[simp] theorem storeByte_same (mem : Nat → UInt8) (a : Nat) (b : UInt8) : storeByte mem a b a = b := if_pos rfl

theorem load32_store32 (mem : Nat → UInt8) (a v : Nat) (h : v < 2 ^ 32) : load32 (store32 mem a v) a = v := by
  unfold load32 store32
  rw [if_pos (by omega), if_pos (by omega), if_pos (by omega), if_pos (by omega)]
  simp only [Nat.sub_self, Nat.add_sub_cancel_left, UInt8.toNat_ofNat']
  omega

theorem load32_store32_out (mem : Nat → UInt8) (a v b : Nat) (h : b + 4 ≤ a ∨ a + 4 ≤ b) :
    load32 (store32 mem a v) b = load32 mem b :=
  load32_congr _ _ b fun x h1 h2 => store32_out mem a v x (by omega)

theorem load32_storeByte_out (mem : Nat → UInt8) (a : Nat) (v : UInt8) (b : Nat) (h : a < b ∨ b + 4 ≤ a) :
    load32 (storeByte mem a v) b = load32 mem b :=
  load32_congr _ _ b fun x h1 h2 => storeByte_out mem a v x (by omega)

/-! ## The processor -/

/-- The flags that the jumps look at. -/
structure Flags where
  zf : Bool
  sf : Bool
  ovf : Bool

structure Core where
  reg : Gpr → Nat
  mem : Nat → UInt8
  flags : Flags
  pc : Nat

def Cond.holds (f : Flags) : Cond → Bool
  | .z => f.zf
  | .nz => !f.zf
  | .s => f.sf
  | .l => f.sf != f.ovf
  | .le => f.zf || f.sf != f.ovf

/-- `a - b` on words. -/
def sub32 (a b : Nat) : Nat := (2 ^ 32 + a - b % 2 ^ 32) % 2 ^ 32

/-- The word is negative as an `int`. -/
def neg32 (v : Nat) : Bool := decide (2 ^ 31 ≤ v)

/-- The flags of a logical operation with result `v`. -/
def logicFlags (v : Nat) : Flags := ⟨decide (v = 0), neg32 v, false⟩

def subFlags (a b : Nat) : Flags :=
  let v := sub32 a b
  ⟨decide (v = 0), neg32 v, neg32 a != neg32 b && neg32 v != neg32 a⟩

def addFlags (a b : Nat) : Flags :=
  let v := (a + b) % 2 ^ 32
  ⟨decide (v = 0), neg32 v, neg32 a == neg32 b && neg32 v != neg32 a⟩

/-- A byte comparison, with the sign in bit 7. -/
def subFlags8 (a b : Nat) : Flags := subFlags (0x1000000 * a) (0x1000000 * b)

def addFlags8 (a b : Nat) : Flags := addFlags (0x1000000 * a) (0x1000000 * b)

namespace Core

def setReg (s : Core) (r : Gpr) (v : Nat) : Core := { s with reg := fun x => if x = r then v else s.reg x }

def setMem (s : Core) (mem : Nat → UInt8) : Core := { s with mem := mem }

def setFlags (s : Core) (f : Flags) : Core := { s with flags := f }

def goto (s : Core) (pc : Nat) : Core := { s with pc := pc }

section
variable (s : Core) (r x : Gpr) (v pc : Nat) (mem : Nat → UInt8) (f : Flags)

@[simp] theorem setReg_reg : (s.setReg r v).reg x = if x = r then v else s.reg x := rfl
@[simp] theorem setReg_mem : (s.setReg r v).mem = s.mem := rfl
@[simp] theorem setReg_flags : (s.setReg r v).flags = s.flags := rfl
@[simp] theorem setReg_pc : (s.setReg r v).pc = s.pc := rfl
@[simp] theorem setMem_reg : (s.setMem mem).reg = s.reg := rfl
@[simp] theorem setMem_mem : (s.setMem mem).mem = mem := rfl
@[simp] theorem setMem_flags : (s.setMem mem).flags = s.flags := rfl
@[simp] theorem setMem_pc : (s.setMem mem).pc = s.pc := rfl
@[simp] theorem setFlags_reg : (s.setFlags f).reg = s.reg := rfl
@[simp] theorem setFlags_mem : (s.setFlags f).mem = s.mem := rfl
@[simp] theorem setFlags_flags : (s.setFlags f).flags = f := rfl
@[simp] theorem setFlags_pc : (s.setFlags f).pc = s.pc := rfl
@[simp] theorem goto_reg : (s.goto pc).reg = s.reg := rfl
@[simp] theorem goto_mem : (s.goto pc).mem = s.mem := rfl
@[simp] theorem goto_flags : (s.goto pc).flags = s.flags := rfl
@[simp] theorem goto_pc : (s.goto pc).pc = pc := rfl

theorem goto_goto (a b : Nat) : (s.goto a).goto b = s.goto b := rfl
theorem goto_setReg : (s.goto pc).setReg r v = (s.setReg r v).goto pc := rfl
theorem goto_setMem : (s.goto pc).setMem mem = (s.setMem mem).goto pc := rfl
theorem goto_setFlags : (s.goto pc).setFlags f = (s.setFlags f).goto pc := rfl

end

def ea (s : Core) (a : Addr) : Nat := ((a.base.elim 0 s.reg) + a.disp) % 2 ^ 32

def read (s : Core) : Operand → Nat
  | .imm n => n % 2 ^ 32
  | .reg r => s.reg r
  | .mem a => load32 s.mem (s.ea a)

/-- An immediate is no destination. -/
def write (s : Core) (v : Nat) : Operand → Option Core
  | .imm _ => none
  | .reg r => some (s.setReg r v)
  | .mem a => some (s.setMem (store32 s.mem (s.ea a) v))

def readb (s : Core) : Operand → UInt8
  | .imm n => UInt8.ofNat n
  | .reg r => UInt8.ofNat (s.reg r)
  | .mem a => s.mem (s.ea a)

def writeb (s : Core) (b : UInt8) : Operand → Option Core
  | .imm _ => none
  | .reg r => some (s.setReg r (s.reg r / 0x100 * 0x100 + b.toNat))
  | .mem a => some (s.setMem (storeByte s.mem (s.ea a) b))

def push (s : Core) (v : Nat) : Core :=
  (s.setMem (store32 s.mem (sub32 (s.reg .esp) 4) v)).setReg .esp (sub32 (s.reg .esp) 4)

/-- The word on top of the stack. -/
def top (s : Core) : Nat := load32 s.mem (s.reg .esp)

/-- The stack without its top. -/
def drop (s : Core) : Core := s.setReg .esp ((s.reg .esp + 4) % 2 ^ 32)

end Core

/-- The effect of an instruction that goes on to the next one. `none` is a division error, or no instruction at all. -/
def Ins.effect {Label : Type} (s : Core) : Ins Label → Option Core
  | .mov d o => s.write (s.read o) d
  | .movb d o => s.writeb (s.readb o) d
  | .lea d a => some (s.setReg d (s.ea a))
  | .push o => some (s.push (s.read o))
  | .pop d => some (s.drop.setReg d s.top)
  | .add d o => (s.write ((s.read d + s.read o) % 2 ^ 32) d).map (·.setFlags (addFlags (s.read d) (s.read o)))
  | .addb d o =>
    (s.writeb (s.readb d + s.readb o) d).map (·.setFlags (addFlags8 (s.readb d).toNat (s.readb o).toNat))
  | .inc d => (s.write ((s.read d + 1) % 2 ^ 32) d).map (·.setFlags (addFlags (s.read d) 1))
  | .dec d => (s.write (sub32 (s.read d) 1) d).map (·.setFlags (subFlags (s.read d) 1))
  | .xor d o => (s.write (s.read d ^^^ s.read o) d).map (·.setFlags (logicFlags (s.read d ^^^ s.read o)))
  | .or d o => (s.write (s.read d ||| s.read o) d).map (·.setFlags (logicFlags (s.read d ||| s.read o)))
  | .shr d n => (s.write (s.read d >>> n) d).map (·.setFlags (logicFlags (s.read d >>> n)))
  | .div o =>
    let n := 2 ^ 32 * s.reg .edx + s.reg .eax
    if s.read o = 0 ∨ 2 ^ 32 ≤ n / s.read o then none
    else some ((s.setReg .eax (n / s.read o)).setReg .edx (n % s.read o))
  | .test a b => some (s.setFlags (logicFlags (s.read a &&& s.read b)))
  | .testb a b => some (s.setFlags (logicFlags (0x1000000 * (s.readb a &&& s.readb b).toNat)))
  | .cmp a b => some (s.setFlags (subFlags (s.read a) (s.read b)))
  | .cmpb a b => some (s.setFlags (subFlags8 (s.readb a).toNat (s.readb b).toNat))
  | _ => none

/-! ## Programs -/

/-- Labelled blocks in their order in memory. A block that does not jump at its end goes on to the next one. -/
structure Program (Label : Type) where
  blocks : List (Label × List (Ins Label))

/-- What one step of a program is. An event has the state behind its instruction, which the world completes. -/
inductive Outcome
  | next (s : Core)
  | int (n : Nat) (s : Core)
  | out8 (port : Nat) (value : UInt8) (s : Core)
  | in8 (port : Nat) (answer : UInt8 → Core)
  | in16 (port : Nat) (answer : UInt16 → Core)
  | fault

variable {Label : Type} [DecidableEq Label]

def offsetIn (l : Label) : List (Label × List (Ins Label)) → Nat
  | [] => 0
  | b :: bs => if b.1 = l then 0 else b.2.length + offsetIn l bs

namespace Program

variable (P : Program Label)

def code : List (Ins Label) := P.blocks.flatMap Prod.snd

/-- The address of a label. -/
def addr (l : Label) : Nat := offsetIn l P.blocks

def step (s : Core) : Outcome :=
  match P.code[s.pc]? with
  | none => .fault
  | some i =>
    match i with
    | .jmp l => .next (s.goto (P.addr l))
    | .jcc c l => .next (s.goto (if c.holds s.flags then P.addr l else s.pc + 1))
    | .loop l =>
      let n := sub32 (s.reg .ecx) 1
      .next ((s.setReg .ecx n).goto (if n ≠ 0 then P.addr l else s.pc + 1))
    | .call l => .next ((s.push (s.pc + 1)).goto (P.addr l))
    | .ret => .next (s.drop.goto s.top)
    | .rep_stosb =>
      if s.reg .ecx = 0 then .next (s.goto (s.pc + 1))
      else .next (((s.setMem (storeByte s.mem (s.reg .edi) (UInt8.ofNat (s.reg .eax)))).setReg .edi
        ((s.reg .edi + 1) % 2 ^ 32)).setReg .ecx (sub32 (s.reg .ecx) 1))
    | .int n => .int n (s.goto (s.pc + 1))
    | .in_al_dx => .in8 (s.reg .edx % 0x10000) fun b =>
        (s.setReg .eax (s.reg .eax / 0x100 * 0x100 + b.toNat)).goto (s.pc + 1)
    | .out_dx_al => .out8 (s.reg .edx % 0x10000) (UInt8.ofNat (s.reg .eax)) (s.goto (s.pc + 1))
    | .rep_insw =>
      if s.reg .ecx = 0 then .next (s.goto (s.pc + 1))
      else .in16 (s.reg .edx % 0x10000) fun w =>
        ((s.setMem (storeByte (storeByte s.mem (s.reg .edi) w.toUInt8) (s.reg .edi + 1) (w >>> 8).toUInt8)).setReg .edi
          ((s.reg .edi + 2) % 2 ^ 32)).setReg .ecx (sub32 (s.reg .ecx) 1)
    | i =>
      match i.effect s with
      | none => .fault
      | some t => .next (t.goto (s.pc + 1))

/-- The instructions `is` are at address `a`. -/
def CodeAt (a : Nat) (is : List (Ins Label)) : Prop := is <+: P.code.drop a

end Program

end PeachOS.Lib.Asm
