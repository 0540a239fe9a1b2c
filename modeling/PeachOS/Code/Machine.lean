import Mathlib.Algebra.Group.Int.Defs
import Mathlib.Algebra.GroupWithZero.Nat
import Mathlib.Tactic.Common

/-!
# C integers, strings and status codes

The kernel is 32-bit C, built without optimisation, so signed arithmetic wraps. Values are `Nat`
and `Int` here, and a conversion or a product that can wrap goes through `u32` or `i32`.
-/

namespace PeachOS

/-- Conversion to `uint32_t`. -/
def u32 (x : Int) : Nat := (x % 2 ^ 32).toNat

/-- Conversion to `int`. -/
def i32 (x : Int) : Int := x.bmod (2 ^ 32)

/-- Conversion to `uint16_t`. -/
def u16 (x : Int) : Nat := (x % 2 ^ 16).toNat

theorem u32_lt (x : Int) : u32 x < 2 ^ 32 := by
  unfold u32
  omega

theorem u32_natCast (n : Nat) : u32 n = n % 2 ^ 32 := by
  unfold u32
  omega

theorem i32_of_lt (x : Int) (h0 : -0x80000000 ≤ x) (h : x < 0x80000000) : i32 x = x := by
  unfold i32
  rw [Int.bmod_def]
  split <;> omega

/-! ## Status codes, from `status.h` -/

def EIO : Int := 1
def EINVARG : Int := 2
def ENOMEM : Int := 3
def EBADPATH : Int := 4
def EFSNOTUS : Int := 5
def EUNIMP : Int := 7
def EISTKN : Int := 8

/-! ## Little-endian fields -/

/-- The two bytes of a `uint16_t`, as `&value` shows them. -/
def bytes16 (v : Nat) (i : Nat) : UInt8 := UInt8.ofNat (if i = 0 then v % 256 else v / 256 % 256)

/-- The four bytes of a `uint32_t`. -/
def bytes32 (v : Nat) (i : Nat) : UInt8 := UInt8.ofNat (v / 256 ^ i % 256)

def le16 (b : Nat → UInt8) : Nat := (b 0).toNat + 256 * (b 1).toNat

def le32 (b : Nat → UInt8) : Nat :=
  (b 0).toNat + 256 * (b 1).toNat + 65536 * (b 2).toNat + 16777216 * (b 3).toNat

theorem le16_lt (b : Nat → UInt8) : le16 b < 65536 := by
  have h0 := (b 0).toNat_lt
  have h1 := (b 1).toNat_lt
  unfold le16
  omega

theorem le32_lt (b : Nat → UInt8) : le32 b < 2 ^ 32 := by
  have h0 := (b 0).toNat_lt
  have h1 := (b 1).toNat_lt
  have h2 := (b 2).toNat_lt
  have h3 := (b 3).toNat_lt
  unfold le32
  omega

theorem le16_bytes16 (v : Nat) (h : v < 65536) : le16 (bytes16 v) = v := by
  simp [le16, bytes16]
  omega

theorem le32_bytes32 (v : Nat) (h : v < 2 ^ 32) : le32 (bytes32 v) = v := by
  simp [le32, bytes32]
  omega

theorem byte_eq_of_toNat (b : UInt8) (n : Nat) (h : n % 256 = b.toNat) : UInt8.ofNat n = b := by
  apply UInt8.toNat_inj.mp
  simp [h]

theorem bytes16_le16 (b : Nat → UInt8) (i : Nat) (h : i < 2) : bytes16 (le16 b) i = b i := by
  have h0 := (b 0).toNat_lt
  have h1 := (b 1).toNat_lt
  apply byte_eq_of_toNat
  rcases (by omega : i = 0 ∨ i = 1) with rfl | rfl
  · simp [le16]
  · simp only [le16, Nat.one_ne_zero, if_false]
    omega

theorem bytes32_le32 (b : Nat → UInt8) (i : Nat) (h : i < 4) : bytes32 (le32 b) i = b i := by
  have h0 := (b 0).toNat_lt
  have h1 := (b 1).toNat_lt
  have h2 := (b 2).toNat_lt
  have h3 := (b 3).toNat_lt
  apply byte_eq_of_toNat
  rcases (by omega : i = 0 ∨ i = 1 ∨ i = 2 ∨ i = 3) with rfl | rfl | rfl | rfl
  all_goals unfold le32; omega

/-! ## `string.c` -/

def tolower (s1 : UInt8) : UInt8 := if 65 ≤ s1 ∧ s1 ≤ 90 then s1 + 32 else s1

/-- `istrncmp` with `n` characters left, at index `i` of both strings. -/
def istrncmp_from (s1 s2 : Nat → UInt8) : Nat → Nat → Int
  | 0, _ => 0
  | n + 1, i =>
    let u1 := s1 i
    let u2 := s2 i
    if u1 ≠ u2 ∧ tolower u1 ≠ tolower u2 then (u1.toNat : Int) - u2.toNat
    else if u1 = 0 then 0
    else istrncmp_from s1 s2 n (i + 1)

def istrncmp (s1 s2 : Nat → UInt8) (n : Nat) : Int := istrncmp_from s1 s2 n 0

/-- A C string holding `l`, with its terminating NUL. -/
def cstr (l : List UInt8) (i : Nat) : UInt8 := l.getD i 0

end PeachOS
