import PeachOS.Code.Kernel

/-!
# Paths, from `pparser.c`

The allocations of a call are numbered in the order in which it makes them, and `kzalloc` says which of them
find memory. The results of `kzalloc` are not checked, and a null pointer ends the path.
-/

namespace PeachOS

/-- A C string: the characters before its NUL. -/
structure CString where
  chars : List UInt8
  no_nul : 0 ∉ chars

/-- `struct path_root`, with the list of its parts. -/
structure PathRoot where
  drive_no : Int
  parts : List (List UInt8)

def isdigit (c : UInt8) : Prop := 48 ≤ c ∧ c ≤ 57

instance (c : UInt8) : Decidable (isdigit c) := inferInstanceAs (Decidable (_ ∧ _))

def tonumericdigit (c : UInt8) : Int := (c.toNat : Int) - 48

def pathparser_path_valid_format (filename : List UInt8) : Prop :=
  3 ≤ min filename.length PEACHOS_MAX_PATH ∧ isdigit (cstr filename 0) ∧
    cstr filename 1 = 0x3A ∧ cstr filename 2 = 0x2F

instance (filename : List UInt8) : Decidable (pathparser_path_valid_format filename) :=
  inferInstanceAs (Decidable (_ ∧ _ ∧ _ ∧ _))

/-- Returns the drive number and the path behind it. -/
def pathparser_get_drive_by_path (path : List UInt8) : Int × List UInt8 :=
  if ¬ pathparser_path_valid_format path then (-EBADPATH, path) else
  (tonumericdigit (cstr path 0), path.drop 3)

/-- The copy loop of `pathparser_get_path_part`, with the block that it writes to. Returns the block, the number of
characters and the path that is left. -/
def pathparser_get_path_part_loop : List UInt8 → Nat → (Nat → UInt8) → (Nat → UInt8) × Nat × List UInt8
  | [], i, result_path_part => (result_path_part, i, [])
  | c :: path, i, result_path_part =>
    if c ≠ 0x2F then
      pathparser_get_path_part_loop path (i + 1) fun x => if x = i then c else result_path_part x
    else (result_path_part, i, c :: path)

/-- Returns the part, if there is one, and the path behind it and behind its slash. -/
def pathparser_get_path_part (alloc : Bool) (path : List UInt8) : Option (List UInt8) × List UInt8 :=
  let (result_path_part, path) := path.span (fun c => c ≠ 0x2F)
  (if !alloc ∨ result_path_part = [] then none else some result_path_part, path.tail)

def pathparser_parse_path_part (alloc alloc_part : Bool) (path : List UInt8) :
    Option (List UInt8) × List UInt8 :=
  let (path_part_str, path) := pathparser_get_path_part alloc path
  (if !alloc_part then none else path_part_str, path)

/-- The parts from number `j` on. Every part has a character, so `fuel` is a bound on the length. -/
def pathparser_parts (kzalloc : Nat → Bool) : Nat → Nat → List UInt8 → List (List UInt8)
  | 0, _, _ => []
  | fuel + 1, j, path =>
    match pathparser_parse_path_part (kzalloc (2 * j + 1)) (kzalloc (2 * j + 2)) path with
    | (none, _) => []
    | (some part, path) => part :: pathparser_parts kzalloc fuel (j + 1) path

/-- The blocks that these parts are in. `block j` is the memory at the block of part `j` before the copy. -/
def pathparser_blocks (kzalloc : Nat → Bool) (block : Nat → Nat → UInt8) :
    Nat → Nat → List UInt8 → List (Nat → UInt8)
  | 0, _, _ => []
  | fuel + 1, j, path =>
    let (result_path_part, i, path) := pathparser_get_path_part_loop path 0 (block j)
    if i = 0 ∨ !kzalloc (2 * j + 1) ∨ !kzalloc (2 * j + 2) then [] else
    result_path_part :: pathparser_blocks kzalloc block fuel (j + 1) path.tail

/-- `none` is the null pointer. -/
def pathparser_parse (path : CString) (kzalloc : Nat → Bool) : Option PathRoot :=
  if path.chars.length > PEACHOS_MAX_PATH then none else
  let (res, tmp_path) := pathparser_get_drive_by_path path.chars
  if res < 0 then none else
  if !kzalloc 0 then none else
  some { drive_no := res, parts := pathparser_parts kzalloc (tmp_path.length + 1) 0 tmp_path }

end PeachOS
