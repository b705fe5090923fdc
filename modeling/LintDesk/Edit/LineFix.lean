import LintDesk.Edit.Position
import LintDesk.Text.Lines
import LintDesk.Text.Units
import LintDesk.Violation

/-!
Applying one fix to one line, and the edit that does so in a document.
-/

namespace LintDesk

/-- What becomes of a line. -/
inductive LineFix where
  | replace (text : Line)
  /-- The line goes away together with one terminator next to it. -/
  | deleteLine
  deriving DecidableEq, Repr

namespace Fix

/-- The text a fix inserts, its line breaks written as `ending`. -/
def insertedChars (f : Fix) (ending : LineEnding) : List Char :=
  (f.insertion.getD "").toList.flatMap fun c => if c == '\n' then ending.chars else [c]

/-- Applies a fix to a line. Deleting the whole line while inserting text replaces everything from
the column on. -/
def apply (f : Fix) (line : Line) (ending : LineEnding) : LineFix :=
  let inserted := f.insertedChars ending
  let start := f.column - 1
  match f.removal with
  | .wholeLine =>
    if inserted.isEmpty then .deleteLine else .replace (takeUnits start line ++ inserted)
  | .chars count =>
    .replace (takeUnits start line ++ inserted ++ dropUnits (start + count) line)

/-- The edit that applies a fix to line `index` of a text, or to the line the fix itself names;
nothing if there is no such line. A line that goes away takes the terminator in front of it along,
the first line the one after it, and an only line is emptied. -/
def lineEdit? (f : Fix) (text : List Char) (index : Nat) : Option TextEdit :=
  let lines := splitLines text
  let index := match f.line with
    | some n => n - 1
    | none => index
  match lines[index]? with
  | none => none
  | some line =>
    let whole : Range := ⟨.place index 0, .place index (units line)⟩
    match f.apply line (dominantEnding text) with
    | .replace new => some ⟨whole, String.ofList new⟩
    | .deleteLine =>
      let range : Range :=
        match index with
        | 0 => if lines.length > 1 then ⟨.place 0 0, .place 1 0⟩ else whole
        | before + 1 => ⟨.place before (units ((lines[before]?).getD [])), whole.finish⟩
      some ⟨range, ""⟩

end Fix

def fullEdit (text : List Char) (newText : String) : TextEdit :=
  let lines := splitLines text
  ⟨⟨.place 0 0, .place (lines.length - 1) (units (lines.getLast?.getD []))⟩, newText⟩

end LintDesk
