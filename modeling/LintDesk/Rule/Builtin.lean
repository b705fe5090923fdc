import LintDesk.Violation
import LintDesk.Config.Basic
import LintDesk.Rule.Fence
import LintDesk.Text.Units

/-!
The built-in rules. Each takes a configuration and the lines of a document and lists the places
that break it, in document order. Columns count code units from 1.
-/

namespace LintDesk

/-- What is fixed about a rule. -/
structure RuleHead where
  name : String
  shortName : String
  description : String
  tags : List String
  deriving DecidableEq, Repr

namespace RuleHead

def documentation : String := "https://github.com/DavidAnson/markdownlint/blob/v0.38.0/doc/"

/-- Both names, the primary one first. -/
def names (r : RuleHead) : List String := [r.name, r.shortName]

/-- A violation of the rule on a line, without span and fix. -/
def violation (r : RuleHead) (line : Nat) : Violation :=
  { names := r.names, line, description := r.description,
    information := some (documentation ++ r.name.toLower ++ ".md") }

/-- The options of the rule under a configuration, if it is on. -/
def options? (r : RuleHead) (config : RuleConfig) : Option (Dict Json) :=
  config.options? r.names r.tags

end RuleHead

namespace Rule

/-- No blanks at the end of a line, except the number that makes a line break. -/
def trailingSpaces : RuleHead :=
  { name := "MD009", shortName := "no-trailing-spaces", description := "Trailing spaces",
    tags := ["whitespace"] }

/-- No tab characters. -/
def hardTabs : RuleHead :=
  { name := "MD010", shortName := "no-hard-tabs", description := "Hard tabs",
    tags := ["whitespace", "hard_tab"] }

/-- No more than a few blank lines in a row. -/
def multipleBlanks : RuleHead :=
  { name := "MD012", shortName := "no-multiple-blanks",
    description := "Multiple consecutive blank lines", tags := ["whitespace", "blank_lines"] }

/-- No line longer than a limit. -/
def lineLength : RuleHead :=
  { name := "MD013", shortName := "line-length", description := "Line length",
    tags := ["line_length"] }

/-- One blank between the hashes of a heading and its text. -/
def headingSpace : RuleHead :=
  { name := "MD019", shortName := "no-multiple-space-atx",
    description := "Multiple spaces after hash on atx style heading",
    tags := ["headings", "atx", "spaces"] }

/-- A terminator at the end of the file. -/
def finalNewline : RuleHead :=
  { name := "MD047", shortName := "single-trailing-newline",
    description := "Files should end with a single newline character", tags := ["blank_lines"] }

/-- All built-in rules, in the order they are checked. -/
def builtin : List RuleHead :=
  [trailingSpaces, hardTabs, multipleBlanks, lineLength, headingSpace, finalNewline]

/-- The note on what was expected and what was found. -/
def expectedActual (expected : String) (actual : Nat) : String :=
  "Expected: " ++ expected ++ "; Actual: " ++ toString actual

/-- Trailing blanks of one line; `breaks` of them after some text make a line break. -/
def checkTrailingSpaces (breaks number : Nat) (line : Line) : List Violation :=
  let kept := trimEndWhere (· == ' ') line
  let count := line.length - kept.length
  if count == 0 || (count == breaks && !isBlankLine kept) then []
  else
    let column := units kept + 1
    let expected := if breaks == 0 then "0" else "0 or " ++ toString breaks
    [{ trailingSpaces.violation number with
        detail := some (expectedActual expected count)
        span := some ⟨column, count⟩
        fix := some (.delete column count) }]

/-- The runs of tabs from a given column on. -/
def tabRuns : (column : Nat) → List Char → List Span
  | _, [] => []
  | column, c :: rest =>
    let runs := tabRuns (column + charUnits c) rest
    if c == '\t' then
      match runs with
      | run :: more =>
        if run.column == column + 1 then ⟨column, run.length + 1⟩ :: more
        else ⟨column, 1⟩ :: run :: more
      | [] => [⟨column, 1⟩]
    else runs

/-- How many blanks come in the place of `count` tabs: a product of machine words, which wraps. -/
def blanksFor (width count : Nat) : Nat :=
  count * width % UInt64.size

/-- The tabs of one line, each to be replaced by `width` blanks. -/
def checkHardTabs (width number : Nat) (line : Line) : List Violation :=
  (tabRuns 1 line).map fun run =>
    { hardTabs.violation number with
        detail := some ("Column: " ++ toString run.column)
        span := some run
        fix := some (.replace run.column run.length
          (String.ofList (List.replicate (blanksFor width run.length) ' '))) }

/-- Blank lines beyond `maximum` in a row, given how many the row has before the first line. -/
def checkBlankRuns (maximum : Nat) : (count number : Nat) → List FencedLine → List Violation
  | _, _, [] => []
  | count, number, line :: rest =>
    if line.inFence || !isBlankLine line.text then checkBlankRuns maximum 0 (number + 1) rest
    else
      let tail := checkBlankRuns maximum (count + 1) (number + 1) rest
      if count + 1 > maximum then
        { multipleBlanks.violation number with
            detail := some (expectedActual (toString maximum) (count + 1))
            fix := some .deleteLine } :: tail
      else tail

/-- A line longer than `limit`. -/
def checkLineLength (limit number : Nat) (line : Line) : List Violation :=
  let length := units line
  if length > limit then
    [{ lineLength.violation number with
        detail := some (expectedActual (toString limit) length)
        span := some ⟨limit + 1, length - limit⟩ }]
  else []

/-- The parts of a heading: the widths of its indentation, its hashes and the gap before its
text. -/
structure Heading where
  indent : Nat
  hashes : Nat
  gap : Nat
  deriving DecidableEq, Repr

/-- The heading a line is, if it has text after its hashes. -/
def Heading.ofLine? (line : Line) : Option Heading :=
  let indent := (line.takeWhile (· == ' ')).length
  let rest := line.dropWhile (· == ' ')
  let hashes := (rest.takeWhile (· == '#')).length
  let after := rest.dropWhile (· == '#')
  let gap := (after.takeWhile fun c => c == ' ' || c == '\t').length
  let hasText := (after.dropWhile fun c => c == ' ' || c == '\t').head?.any (!isBlank ·)
  if indent ≤ 3 && 1 ≤ hashes && hashes ≤ 6 && hasText then some ⟨indent, hashes, gap⟩ else none

/-- A heading with more than one blank after its hashes. -/
def checkHeadingSpace (number : Nat) (line : Line) : List Violation :=
  match Heading.ofLine? line with
  | some h =>
    if h.gap ≥ 2 then
      [{ headingSpace.violation number with
          span := some ⟨h.indent + 1, h.hashes + h.gap + 1⟩
          fix := some (.delete (h.indent + h.hashes + 1) (h.gap - 1)) }]
    else []
  | none => []

/-- A last line that is not blank lacks its terminator. -/
def checkFinalNewline (lines : List FencedLine) : List Violation :=
  match lines.getLast? with
  | some last =>
    if isBlankLine last.text then []
    else
      let length := units last.text
      [{ finalNewline.violation lines.length with
          span := some ⟨length, 1⟩
          fix := some (.insertAt (length + 1) "\n") }]
  | none => []

/-- Checks every line that `applies`, with its number. -/
def eachLine (lines : List FencedLine) (applies : FencedLine → Bool)
    (check : (number : Nat) → Line → List Violation) : List Violation :=
  lines.zipIdx.flatMap fun (line, index) =>
    if applies line then check (index + 1) line.text else []

/-- Violations of one rule, none if it is off. -/
def ifOn (rule : RuleHead) (config : RuleConfig) (check : Dict Json → List Violation) :
    List Violation :=
  match rule.options? config with
  | some options => check options
  | none => []

/-- Violations of the built-in rules, rule by rule. -/
def builtinViolations (config : RuleConfig) (lines : List FencedLine) : List Violation :=
  (ifOn trailingSpaces config fun options =>
    let breaks := natOption options "br_spaces" 2
    eachLine lines (fun _ => true) (checkTrailingSpaces (if breaks < 2 then 0 else breaks))) ++
  (ifOn hardTabs config fun options =>
    let inCode := boolOption options "code_blocks" true
    eachLine lines (fun l => inCode || !l.inFence)
      (checkHardTabs (natOption options "spaces_per_tab" 1))) ++
  (ifOn multipleBlanks config fun options =>
    checkBlankRuns (natOption options "maximum" 1) 0 1 lines) ++
  (ifOn lineLength config fun options =>
    let inCode := boolOption options "code_blocks" true
    eachLine lines (fun l => inCode || !l.inFence)
      (checkLineLength (natOption options "line_length" 80))) ++
  (ifOn headingSpace config fun _ => eachLine lines (!·.inFence) checkHeadingSpace) ++
  (ifOn finalNewline config fun _ => checkFinalNewline lines)

end Rule

end LintDesk
