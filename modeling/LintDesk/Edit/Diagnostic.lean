import LintDesk.Edit.LineFix
import LintDesk.Settings.Basic

/-!
Diagnostics: violations placed in a document. Violations on lines that do not exist are left out,
and so are those near the cursor if the focus mode says so.
-/

namespace LintDesk

/-- A violation placed in a document. -/
structure Diagnostic where
  range : Range
  message : String
  rule : String
  ruleAlias : String
  fix : Option Fix
  information : Option Url
  deriving DecidableEq, Repr

namespace Diagnostic

/-- The columns a violation covers in a line of the given length: its span, cut at the end of the
line, or the whole line. -/
def columns (length : Nat) : Option Span → Nat × Nat
  | some span =>
    let first := min (span.column - 1) length
    (first, min (first + span.length) length)
  | none => (0, length)

def isFocused (mode : FocusMode) (cursor : Option Nat) (line : Nat) : Bool :=
  match mode, cursor with
  | .window n, some c => line - n ≤ c && c ≤ min (line + n) maxWord32
  | _, _ => false

/-- The diagnostic of one violation, if its line exists and is not near the cursor. -/
def ofViolation? (lines : List Line) (mode : FocusMode) (cursor : Option Nat) (v : Violation) :
    Option Diagnostic :=
  match v.line with
  | 0 => none
  | index + 1 =>
    match lines[index]? with
    | none => none
    | some line =>
      if isFocused mode cursor (min index maxWord32) then none
      else
        let (first, last) := columns (units line) v.span
        some { range := ⟨.place index first, .place index last⟩, message := v.message, rule := v.rule,
               ruleAlias := v.ruleAlias, fix := v.fix, information := v.information.bind Url.parse? }

/-- The diagnostics of a document, in the order of the violations. -/
def build (d : Document) (mode : FocusMode) (cursor : Option Nat) (violations : List Violation) :
    List Diagnostic :=
  violations.filterMap (ofViolation? d.lines mode cursor)

/-- The documentation link of each rule; of several links the last wins. -/
def links (diagnostics : List Diagnostic) : Dict Url :=
  Dict.ofPairs (diagnostics.filterMap fun d => d.information.map (d.rule, ·))

end Diagnostic

/-- What a diagnostic carries so that it can be acted on when it comes back. -/
structure DiagnosticData where
  rule : String
  ruleAlias : String
  fix : Option Fix := none
  deriving DecidableEq, Repr

namespace DiagnosticData

def toJson (d : DiagnosticData) : Json :=
  .ofFields [("rule", some (.str d.rule)), ("ruleAlias", some (.str d.ruleAlias)),
    ("fixInfo", d.fix.map Fix.toJson)]

def ofJson? (v : Json) : Option DiagnosticData := do
  let r ← v.record? ["rule", "ruleAlias", "fixInfo"]
  let rule ← Json.required? r "rule" Json.string?
  let ruleAlias ← Json.required? r "ruleAlias" Json.string?
  let fix ← Json.optional? r "fixInfo" Fix.ofJson?
  return { rule, ruleAlias, fix }

end DiagnosticData

end LintDesk
