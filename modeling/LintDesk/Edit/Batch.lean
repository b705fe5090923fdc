import LintDesk.Edit.LineFix

/-!
Applying many fixes at once. The fixes are ordered from the end of the text to its start, repeated
ones are dropped, an insertion and a deletion at one place become one replacement, and a fix that
reaches into one already considered on its line is skipped. Lines are addressed by their place in
the text as it was.
-/

namespace LintDesk

/-- Which violations a batch fixes. -/
inductive FixChoice where
  | all
  /-- Violations of a rule, by any of its names. -/
  | rule (name : String)
  /-- Violations on the lines from `first` to `last`, counted from 0. -/
  | lines (first last : Nat)
  deriving DecidableEq, Repr

namespace FixChoice

/-- Violations of a rule if one is named, else all. -/
def ofRule : Option String → FixChoice
  | some name => rule name
  | none => all

def accepts : FixChoice → Violation → Bool
  | all, _ => true
  | rule name, v => v.hasRule name
  | lines first last, v => first ≤ v.line - 1 && v.line - 1 ≤ last

end FixChoice

/-- A fix with the line it edits; line and column count from 0. -/
structure PlannedFix where
  line : Nat
  start : Nat
  removal : Removal
  insertion : String
  deriving DecidableEq, Repr

namespace PlannedFix

/-- The fix of a violation, unless it has none or names line 0. -/
def ofViolation? (v : Violation) : Option PlannedFix :=
  match v.fix with
  | none => none
  | some fix =>
    match fix.line.getD v.line with
    | 0 => none
    | line + 1 => some ⟨line, fix.column - 1, fix.removal, fix.insertion.getD ""⟩

def insertedUnits (f : PlannedFix) : Nat :=
  units f.insertion.toList

/-- The order of a batch: later lines first; on one line deletions of it last, then later columns
first, then longer insertions first. -/
def precedes (a b : PlannedFix) : Bool :=
  if a.line != b.line then b.line < a.line
  else if a.removal.isWholeLine != b.removal.isWholeLine then b.removal.isWholeLine
  else if a.start != b.start then b.start < a.start
  else b.insertedUnits ≤ a.insertedUnits

/-- The same fix as a descriptor for its line. -/
def toFix (f : PlannedFix) : Fix :=
  { column := f.start + 1, removal := f.removal, insertion := some f.insertion }

/-- Whether `first` only inserts and `second` only deletes, at one place. -/
def complements (first second : PlannedFix) : Bool :=
  second.line == first.line && second.start == first.start && second.insertion.isEmpty &&
    second.removal.toInt > 0 && !first.insertion.isEmpty && first.removal.toInt == 0

end PlannedFix

/-- Drops a fix that equals the one before it. -/
def dropRepeats : List PlannedFix → List PlannedFix
  | [] => []
  | f :: rest =>
    match dropRepeats rest with
    | [] => [f]
    | g :: more => if f = g then f :: more else f :: g :: more

/-- Turns an insertion followed by a deletion at the same place into one replacement. -/
def joinComplements : List PlannedFix → List PlannedFix
  | [] => []
  | [f] => [f]
  | f :: g :: rest =>
    if f.complements g then joinComplements ({ g with insertion := f.insertion } :: rest)
    else f :: joinComplements (g :: rest)
termination_by fixes => fixes.length

/-- A batch under way: what has become of each line, the place of the fix considered last, and how
many fixes were applied. -/
structure BatchState where
  lines : List (Option Line)
  lastLine : Option Nat := none
  lastStart : Int := -1
  applied : Nat := 0
  deriving Repr

namespace BatchState

/-- The largest signed 64-bit word, where columns are cut. -/
def maxInt64 : Int := 0x7FFF_FFFF_FFFF_FFFF

/-- Whether a fix stays clear of the one considered before it. -/
def fits (s : BatchState) (f : PlannedFix) : Bool :=
  let start : Int := min f.start maxInt64
  let count := f.removal.toInt
  s.lastLine != some f.line || f.removal.isWholeLine ||
    min (start + count) maxInt64 ≤ s.lastStart - (if count > 0 then 0 else 1)

/-- Considers one fix. A fix is skipped if it does not fit, or if its line is missing or gone. -/
def step (ending : LineEnding) (s : BatchState) (f : PlannedFix) : BatchState :=
  let considered :=
    { s with lastLine := some f.line, lastStart := min (f.start : Int) maxInt64 }
  if s.fits f then
    match s.lines[f.line]? with
    | some (some line) =>
      let fixed := match f.toFix.apply line ending with
        | .replace text => some text
        | .deleteLine => none
      { considered with lines := s.lines.set f.line fixed, applied := s.applied + 1 }
    | _ => considered
  else considered

end BatchState

structure BatchResult where
  applied : Nat
  content : List Char
  modified : Bool
  deriving DecidableEq, Repr

/-- The fixes of a batch in the order they are considered. -/
def plannedFixes (violations : List Violation) (filter : FixChoice) : List PlannedFix :=
  let selected := (violations.filter filter.accepts).filterMap PlannedFix.ofViolation?
  joinComplements (dropRepeats (selected.mergeSort PlannedFix.precedes))

/-- Applies the fixes of the accepted violations to a text. If there are any, the lines that
remain are joined by the dominant ending. -/
def applyFixes (text : List Char) (violations : List Violation) (filter : FixChoice) :
    BatchResult :=
  match plannedFixes violations filter with
  | [] => ⟨0, text, false⟩
  | fixes =>
    let ending := dominantEnding text
    let result := fixes.foldl (BatchState.step ending) { lines := (splitLines text).map some }
    let content := joinLines ending (result.lines.filterMap id)
    ⟨result.applied, content, content != text⟩

end LintDesk
