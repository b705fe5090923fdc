import LintDesk.Desk.Run
import LintDesk.Server.Message

/-!
The actions a client offers at a place: fixes for the violations there, fixes for all violations
of their rules, pages about the rules, and a fix for the whole document.
-/

namespace LintDesk

/-- All fixes of a document that a filter selects, as one edit. -/
def Desk.fixAll (d : Desk) (fuel : Nat) (document : Document) (filter : FixChoice) :
    Option TextEdit × Desk :=
  let d := d.perform fuel [.collect document (.fix filter)]
  match d.outcome? Desk.host with
  | some (.edit e) => (e, d)
  | _ => (none, d)

namespace Server

inductive ActionKind where
  | quickFix
  | fixAll
  deriving DecidableEq, Repr

/-- The name of a kind; what follows a dot narrows the kind before it. -/
def ActionKind.name : ActionKind → String
  | quickFix => "quickfix"
  | fixAll => "source.fixAll.mdguard"

/-- Whether a kind is the requested one or falls under it. -/
def ActionKind.isUnder (k : ActionKind) (requested : String) : Bool :=
  k.name == requested || (requested ++ ".").toList.isPrefixOf k.name.toList

def ActionKind.isWanted (k : ActionKind) (only : Option (List String)) : Bool :=
  match only with
  | some kinds => kinds.any k.isUnder
  | none => true

structure CodeAction where
  title : String
  kind : ActionKind
  /-- The diagnostic it is about. -/
  diagnostic : Option ClientDiagnostic := none
  edit : Option (Url × TextEdit) := none
  /-- The page it opens. -/
  page : Option String := none
  preferred : Bool := false
  deriving Repr

def openCommand : String := "mdguard.openRuleInformation"

def CodeAction.toJson (a : CodeAction) : Json :=
  .ofFields [("title", some (.str a.title)), ("kind", some (.str a.kind.name)),
    ("diagnostics", a.diagnostic.map fun d => .arr [d.json]),
    ("edit", a.edit.map fun (uri, e) => workspaceEdit uri e),
    ("command", a.page.map fun href => .mkObj [("title", .str a.title),
      ("command", .str openCommand), ("arguments", .arr [.str href])]),
    ("isPreferred", if a.preferred then some (.bool true) else none)]

def configurationPage : String :=
  "https://github.com/DavidAnson/markdownlint/blob/main/README.md#configuration"

def learnAction : CodeAction where
  title := "Learn how to configure mdguard rules"
  kind := .quickFix
  page := some configurationPage

def informationAction? (d : ClientDiagnostic) (data : DiagnosticData) : Option CodeAction :=
  d.href.map fun u =>
    { title := "More information about " ++ data.rule, kind := .quickFix, diagnostic := some d
      page := some u.text }

/-- The diagnostics that actions are offered for: those of this program that touch the range and
whose data can be read. -/
def relevant (q : ActionQuery) : List (ClientDiagnostic × DiagnosticData) :=
  q.diagnostics.filterMap fun d =>
    if d.source == some source && d.range.intersects q.range then
      d.data?.map fun data => (d, data)
    else none

def fixAction? (document : Document) (uri : Url) (d : ClientDiagnostic) (data : DiagnosticData) :
    Option CodeAction := do
  let edit ← (← data.fix).lineEdit? document.text.toList d.range.start.line
  return { title := "Fix this violation of " ++ data.ruleAlias, kind := .quickFix
           diagnostic := some d, edit := some (uri, edit), preferred := true }

/-- The actions for diagnostics, one after the other. The fix for all violations of a rule is
offered once, with the first fix of that rule. -/
def quickFixes (fuel : Nat) (document : Document) (uri : Url) :
    (fixed : List String) → List (ClientDiagnostic × DiagnosticData) → Desk →
      List CodeAction × Desk
  | _, [], desk => ([], desk)
  | fixed, (d, data) :: rest, desk =>
    let about := (informationAction? d data).toList
    match fixAction? document uri d data with
    | none =>
      let (more, desk) := quickFixes fuel document uri fixed rest desk
      (about ++ more, desk)
    | some fix =>
      let (everywhere, desk) :=
        if fixed.contains data.rule then (none, desk)
        else desk.fixAll fuel document (.rule data.rule)
      let whole := everywhere.toList.map fun e =>
        { title := "Fix all violations of " ++ data.ruleAlias ++ " in the document"
          kind := .quickFix, edit := some (uri, e) : CodeAction }
      let (more, desk) := quickFixes fuel document uri (data.rule :: fixed) rest desk
      (fix :: whole ++ about ++ more, desk)

def codeActions (fuel : Nat) (document : Document) (q : ActionQuery) (desk : Desk) :
    List CodeAction × Desk :=
  let (fixes, desk) :=
    if ActionKind.quickFix.isWanted q.only then
      let diagnostics := relevant q
      let (actions, desk) := quickFixes fuel document q.uri [] diagnostics desk
      (if diagnostics.isEmpty then [] else actions ++ [learnAction], desk)
    else ([], desk)
  if ActionKind.fixAll.isWanted q.only then
    let (edit, desk) := desk.fixAll fuel document .all
    let all := edit.toList.map fun e =>
      { title := "Fix all supported mdguard violations in the document", kind := .fixAll
        edit := some (q.uri, e) : CodeAction }
    (fixes ++ all, desk)
  else (fixes, desk)

end Server

end LintDesk
