import LintDesk.Json.Record

/-!
Positions and ranges in a document, as editors exchange them: lines and columns count from 0, and
anything too large for a 32-bit word stands at its end.
-/

namespace LintDesk

def maxWord32 : Nat := 0xFFFF_FFFF

/-- A place in a document; `character` counts code units. -/
structure Position where
  line : Nat
  character : Nat
  deriving DecidableEq, Repr

namespace Position

/-- The place at a line and a column, cut to 32 bits. -/
def place (line character : Nat) : Position :=
  ⟨min line maxWord32, min character maxWord32⟩

/-- Document order. -/
def le (a b : Position) : Bool :=
  a.line < b.line || (a.line == b.line && a.character ≤ b.character)

def toJson (p : Position) : Json :=
  .ofFields [("line", some (.nat p.line)), ("character", some (.nat p.character))]

def ofJson? (v : Json) : Option Position := do
  let r ← v.record? ["line", "character"]
  let line ← Json.required? r "line" Json.nat32?
  let character ← Json.required? r "character" Json.nat32?
  return ⟨line, character⟩

end Position

structure Range where
  start : Position
  finish : Position
  deriving DecidableEq, Repr

namespace Range

def containsLine (r : Range) (line : Nat) : Bool :=
  r.start.line ≤ line && line ≤ r.finish.line

def intersects (a b : Range) : Bool :=
  a.start.le b.finish && b.start.le a.finish

/-- Line and column of the start, then of the end. -/
def corners (r : Range) : List Nat :=
  [r.start.line, r.start.character, r.finish.line, r.finish.character]

def toJson (r : Range) : Json :=
  .ofFields [("start", some r.start.toJson), ("end", some r.finish.toJson)]

def ofJson? (v : Json) : Option Range := do
  let r ← v.record? ["start", "end"]
  let start ← Json.required? r "start" Position.ofJson?
  let finish ← Json.required? r "end" Position.ofJson?
  return ⟨start, finish⟩

end Range

structure TextEdit where
  range : Range
  newText : String
  deriving DecidableEq, Repr

namespace TextEdit

def toJson (e : TextEdit) : Json :=
  .ofFields [("range", some e.range.toJson), ("newText", some (.str e.newText))]

end TextEdit

end LintDesk
