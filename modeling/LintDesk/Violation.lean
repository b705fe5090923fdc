import LintDesk.Json.Record
import LintDesk.Text.Blank

/-!
Rule violations and the edits that fix them, with the form they have on the wire.
-/

namespace LintDesk

/-- How much of its line a fix removes. -/
inductive Removal where
  | chars (count : Nat)
  | wholeLine
  deriving DecidableEq, Repr

namespace Removal

/-- Code units removed; a whole line counts as none. -/
def count : Removal → Nat
  | chars n => n
  | wholeLine => 0

def isWholeLine : Removal → Bool
  | wholeLine => true
  | chars _ => false

/-- The largest count the wire can carry. -/
def maxCount : Nat := 0x7FFF_FFFF_FFFF_FFFF

/-- The number on the wire: any negative count stands for the whole line. -/
def toInt : Removal → Int
  | chars n => min n maxCount
  | wholeLine => -1

/-- Reads the number on the wire. -/
def ofInt (n : Int) : Removal :=
  if n < 0 then wholeLine else chars n.toNat

def ofJson? (v : Json) : Option Removal :=
  (v.intIn? (-0x8000_0000_0000_0000) 0x7FFF_FFFF_FFFF_FFFF).map ofInt

end Removal

/-- An edit of one line. Lines and columns count from 1. -/
structure Fix where
  /-- The line to edit, if it is not the violation's own. -/
  line : Option Nat := none
  column : Nat := 1
  removal : Removal := .chars 0
  insertion : Option String := none
  deriving DecidableEq, Repr

namespace Fix

def replace (column count : Nat) (text : String) : Fix :=
  { column, removal := .chars count, insertion := some text }

def insertAt (column : Nat) (text : String) : Fix :=
  replace column 0 text

def delete (column count : Nat) : Fix :=
  { column, removal := .chars count }

def deleteLine : Fix :=
  { removal := .wholeLine }

def toJson (f : Fix) : Json :=
  .ofFields [("lineNumber", f.line.map .nat), ("editColumn", some (.nat f.column)),
    ("deleteCount", some (.int f.removal.toInt)), ("insertText", f.insertion.map .str)]

def ofJson? (v : Json) : Option Fix := do
  let r ← v.record? ["lineNumber", "editColumn", "deleteCount", "insertText"]
  let line ← Json.optional? r "lineNumber" Json.word?
  let column ← Json.withDefault? r "editColumn" 1 Json.word?
  let removal ← Json.withDefault? r "deleteCount" (.chars 0) Removal.ofJson?
  let insertion ← Json.optional? r "insertText" Json.string?
  return { line, column, removal, insertion }

end Fix

/-- A stretch of a line: first column, counted from 1, and length in code units. -/
structure Span where
  column : Nat
  length : Nat
  deriving DecidableEq, Repr

namespace Span

/-- Encodes a span as a pair. -/
def toJson (s : Span) : Json :=
  .arr [.nat s.column, .nat s.length]

def ofJson? : Json → Option Span
  | .arr [column, length] => do
    let column ← column.word?
    let length ← length.word?
    return { column, length }
  | _ => none

end Span

/-- One place where a document breaks a rule. -/
structure Violation where
  /-- The names of the rule, the primary one first. -/
  names : List String
  /-- Line number, counted from 1. -/
  line : Nat
  description : String
  detail : Option String := none
  context : Option String := none
  span : Option Span := none
  /-- Link to the documentation of the rule. -/
  information : Option String := none
  fix : Option Fix := none
  deriving DecidableEq, Repr

namespace Violation

def rule (v : Violation) : String :=
  v.names.headD ""

/-- All names of the rule, as shown to users. -/
def ruleAlias (v : Violation) : String :=
  String.intercalate "/" v.names

/-- Whether the rule goes by this name, up to ASCII case. -/
def hasRule (v : Violation) (name : String) : Bool :=
  v.names.any (sameIgnoringCase · name)

def message (v : Violation) : String :=
  let base := v.ruleAlias ++ ": " ++ v.description
  match v.detail with
  | some detail => base ++ " [" ++ detail ++ "]"
  | none => base

def toJson (v : Violation) : Json :=
  .ofFields [("ruleNames", some (.strings v.names)), ("lineNumber", some (.nat v.line)),
    ("ruleDescription", some (.str v.description)), ("errorDetail", v.detail.map .str),
    ("errorContext", v.context.map .str), ("errorRange", v.span.map Span.toJson),
    ("ruleInformation", v.information.map .str), ("fixInfo", v.fix.map Fix.toJson)]

def ofJson? (v : Json) : Option Violation := do
  let r ← v.record? ["ruleNames", "lineNumber", "ruleDescription", "errorDetail", "errorContext",
    "errorRange", "ruleInformation", "fixInfo"]
  let names ← Json.required? r "ruleNames" Json.strings?
  let line ← Json.required? r "lineNumber" Json.word?
  let description ← Json.required? r "ruleDescription" Json.string?
  let detail ← Json.optional? r "errorDetail" Json.string?
  let context ← Json.optional? r "errorContext" Json.string?
  let span ← Json.optional? r "errorRange" Span.ofJson?
  let information ← Json.optional? r "ruleInformation" Json.string?
  let fix ← Json.optional? r "fixInfo" Fix.ofJson?
  return { names, line, description, detail, context, span, information, fix }

def listOfJson? : Json → Option (List Violation)
  | .arr items => items.mapM ofJson?
  | _ => none

end Violation

end LintDesk
