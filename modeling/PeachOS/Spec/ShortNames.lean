import PeachOS.Fat.Names

/-!
# Names of eight and three characters

A directory entry has a field of eight bytes and one of three, both padded with spaces.
-/

namespace PeachOS

/-- A field of `n` bytes with `l` in it. -/
def padded (n : Nat) (l : List UInt8) : Fin n → UInt8 := fun i => l.getD i 0x20

/-- A name that fits the fields: a base, and if it has an extension, a dot and the extension. -/
structure ShortName where
  base : List UInt8
  ext : List UInt8
  base_ne_nil : base ≠ []
  base_length : base.length ≤ 8
  ext_length : ext.length ≤ 3
  base_chars : ∀ c ∈ base, c ≠ 0x2E ∧ c ≠ 0x20 ∧ c ≠ 0
  ext_chars : ∀ c ∈ ext, c ≠ 0x20 ∧ c ≠ 0

/-- A base and an extension as one text. -/
def joinName (base ext : List UInt8) : List UInt8 := base ++ if ext = [] then [] else 0x2E :: ext

def ShortName.text (name : ShortName) : List UInt8 := joinName name.base name.ext

/-- The characters of a text that go to the filename field: up to a dot, at most eight. -/
def base83 (text : List UInt8) : List UInt8 := (text.takeWhile fun c => c ≠ 0x2E).take 8

/-- The characters that go to the ext field: at most three behind these, and behind the dot if there is one. -/
def ext83 (text : List UInt8) : List UInt8 :=
  let rest := text.drop (base83 text).length
  (if rest.head? = some 0x2E then rest.tail else rest).take 3

/-- Equal but for the case of ASCII letters. -/
def SameLetters (a b : List UInt8) : Prop := a.map tolower = b.map tolower

def LowerCase (c : UInt8) : Prop := 97 ≤ c ∧ c ≤ 122

/-- The fields are padded on the right, and hold no lower-case letter, no NUL and no inner space. The filename is not
empty and has no dot. -/
structure CanonicalFields (it : FatDirectoryItem) : Prop where
  filename_padded : ∀ i j, i ≤ j → it.filename i = 0x20 → it.filename j = 0x20
  ext_padded : ∀ i j, i ≤ j → it.ext i = 0x20 → it.ext j = 0x20
  filename_chars : ∀ i, it.filename i ≠ 0 ∧ it.filename i ≠ 0x2E ∧ ¬ LowerCase (it.filename i)
  ext_chars : ∀ i, it.ext i ≠ 0 ∧ ¬ LowerCase (it.ext i)
  filename_ne : it.filename 0 ≠ 0x20

end PeachOS
