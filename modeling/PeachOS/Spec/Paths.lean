import PeachOS.Code.Path

/-!
# What a path says

Behind the drive, a path is a list of names with slashes between them.
-/

namespace PeachOS

/-- The names of a path: the pieces between its slashes, without the empty ones. -/
def components (text : List UInt8) : List (List UInt8) :=
  (text.splitOn 0x2F).filter fun piece => piece ≠ []

/-- From an empty piece on there are only slashes: a slash at the start or after another slash is followed by
slashes alone. -/
def SlashesEnd (text : List UInt8) : Prop :=
  ∀ before after, text = before ++ 0x2F :: after → (before = [] ∨ before.getLast? = some 0x2F) →
    ∀ c ∈ after, c = 0x2F

/-- A name that can stand between slashes. -/
structure IsComponent (part : List UInt8) : Prop where
  ne_nil : part ≠ []
  no_slash : 0x2F ∉ part
  no_nul : 0 ∉ part

/-- The path `d:/c1/c2/.../ck`. -/
def formatPath (drive : UInt8) (parts : List (List UInt8)) : List UInt8 :=
  drive :: 0x3A :: 0x2F :: [0x2F].intercalate parts

/-- A digit, a colon and a slash. -/
def StartsWithDrive (text : List UInt8) : Prop :=
  ∃ drive rest, isdigit drive ∧ text = drive :: 0x3A :: 0x2F :: rest

/-- The block of a part, which was `before` before the copy: the part and its NUL, and nothing from index 107 on has
been written. -/
structure PartBlock (before block : Nat → UInt8) (part : List UInt8) : Prop where
  chars : ∀ i < part.length, block i = cstr part i
  nul : block part.length = 0
  untouched : ∀ i, 107 ≤ i → block i = before i

end PeachOS
