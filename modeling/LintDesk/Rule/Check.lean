import LintDesk.Fault
import LintDesk.Pattern.Regex
import LintDesk.Rule.Builtin
import LintDesk.Rule.Custom

/-!
Checking a document: the built-in rules, then the custom ones, and all violations in the order of
their lines. A custom rule whose pattern is no regular expression fails the whole check.
-/

namespace LintDesk.Rule

/-- The first match of a custom rule in a line. -/
def checkPattern (rule : CustomRule) (program : Pattern.Program) (number : Nat) (line : Line) :
    List Violation :=
  match Pattern.Regex.find? program line with
  | some (before, matched) =>
    [{ names := rule.names, line := number, description := rule.description
       span := some ⟨units before + 1, max (units matched) 1⟩
       information := rule.information }]
  | none => []

/-- Violations of one custom rule; lines of fenced code are left out. -/
def checkCustom (config : RuleConfig) (lines : List FencedLine) (rule : CustomRule) :
    Except Fault (List Violation) :=
  match config.options? rule.names rule.tags with
  | none => .ok []
  | some _ =>
    match Pattern.Regex.compile? rule.pattern with
    | some program => .ok (eachLine lines (!·.inFence) (checkPattern rule program))
    | none => .error (.engine ("Custom rule '" ++ rule.names.headD "" ++ "' failed"))

/-- Violations of a list of custom rules, rule by rule. -/
def customViolations (config : RuleConfig) (lines : List FencedLine) :
    List CustomRule → Except Fault (List Violation)
  | [] => .ok []
  | rule :: rest =>
    match checkCustom config lines rule with
    | .error fault => .error fault
    | .ok found =>
      match customViolations config lines rest with
      | .error fault => .error fault
      | .ok more => .ok (found ++ more)

/-- Violations in the order of their lines; on one line the order of the rules is kept. -/
def sortByLine (violations : List Violation) : List Violation :=
  violations.mergeSort fun a b => a.line ≤ b.line

def check (text : List Char) (config : RuleConfig) (rules : List CustomRule) :
    Except Fault (List Violation) :=
  let lines := analyze (splitLines text)
  match customViolations config lines rules with
  | .error fault => .error fault
  | .ok custom => .ok (sortByLine (builtinViolations config lines ++ custom))

end LintDesk.Rule
