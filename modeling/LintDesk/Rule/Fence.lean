import LintDesk.Text.Lines

/-!
Fenced code. A fence is a line with at most three blanks followed by at least three backticks or
tildes. An open fence is closed by the next fence of the same marker that is at least as long, or
by the end of the text; both fences belong to the code.
-/

namespace LintDesk

/-- A fence: its marker and how many of them it has. -/
structure Fence where
  marker : Char
  length : Nat
  deriving DecidableEq, Repr

namespace Fence

def isMarker (c : Char) : Bool :=
  c == '\x60' || c == '~'

/-- The fence a line is, if it is one. -/
def ofLine? (line : Line) : Option Fence :=
  let indent := (line.takeWhile (· == ' ')).length
  match line.dropWhile (· == ' ') with
  | [] => none
  | c :: rest =>
    let length := ((c :: rest).takeWhile (· == c)).length
    if isMarker c && indent ≤ 3 && length ≥ 3 then some ⟨c, length⟩ else none

/-- Whether `other` ends the code that `fence` opened. -/
def closedBy (fence other : Fence) : Bool :=
  other.marker == fence.marker && other.length ≥ fence.length

end Fence

/-- A line, with the note whether it belongs to fenced code. -/
structure FencedLine where
  text : Line
  inFence : Bool
  deriving DecidableEq, Repr

/-- Marks the lines of fenced code, given the fence that is open before the first line. -/
def markFences : Option Fence → List Line → List FencedLine
  | _, [] => []
  | none, line :: rest =>
    match Fence.ofLine? line with
    | some fence => ⟨line, true⟩ :: markFences (some fence) rest
    | none => ⟨line, false⟩ :: markFences none rest
  | some fence, line :: rest =>
    let next :=
      match Fence.ofLine? line with
      | some other => if fence.closedBy other then none else some fence
      | none => some fence
    ⟨line, true⟩ :: markFences next rest

/-- Marks the lines of fenced code of a document. -/
def analyze (lines : List Line) : List FencedLine :=
  markFences none lines

end LintDesk
