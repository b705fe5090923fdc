/-!
Columns in UTF-16 code units, the measure editors and rule engines exchange. A column that falls
inside a surrogate pair is rounded up to the next character, and a column past the end stands for
the end.
-/

namespace LintDesk

/-- Code units of one character: two beyond the basic plane. -/
def charUnits (c : Char) : Nat :=
  if c.toNat < 0x10000 then 1 else 2

def units (s : List Char) : Nat :=
  s.foldr (charUnits · + ·) 0

/-- The shortest beginning of a text that spans at least `column` units; all of it if none
does. -/
def takeUnits : Nat → List Char → List Char
  | 0, _ => []
  | _ + 1, [] => []
  | n + 1, c :: rest => c :: takeUnits (n + 1 - charUnits c) rest

/-- What follows `takeUnits column`. -/
def dropUnits : Nat → List Char → List Char
  | 0, s => s
  | _ + 1, [] => []
  | n + 1, c :: rest => dropUnits (n + 1 - charUnits c) rest

def byteLength (s : List Char) : Nat :=
  s.foldr (Char.utf8Size · + ·) 0

def byteOffset (s : List Char) (column : Nat) : Nat :=
  byteLength (takeUnits column s)

end LintDesk
