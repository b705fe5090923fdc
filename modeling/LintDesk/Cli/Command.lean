import LintDesk.Cli.Arguments
import LintDesk.Cli.Discovery
import LintDesk.Config.Resolve
import LintDesk.Edit.Batch
import LintDesk.Engine.Lint
import LintDesk.Json.Printer

/-!
The commands: `lint` prints violations, `fix` mends what can be mended, and `init` writes a first
configuration. A command works on a tree and gives back the tree it leaves, what it prints, and
whether violations remain.
-/

namespace LintDesk.Cli

structure Report where
  /-- Whether violations remain, or why the command failed. -/
  outcome : Except String Bool
  output : List String := []
  errors : List String := []
  tree : Disk

structure Findings where
  path : Path
  text : String
  violations : List Violation

def ignoreFileName : String := ".markdownlintignore"

/-- The text of a fault of the file system alone. -/
def reasonOf : Fault → String
  | .io _ reason => reason
  | f => f.message

structure Linter where
  folder : Folder
  explicit : Option ResolvedConfig
  ignores : IgnoreSet
  resolver : Resolver

namespace Linter

/-- A linter for the tree below a directory; a configuration that is named replaces those found. -/
def start (fuel : Nat) (tree : Disk) (root : Path) (home : Option Path) (config : Option Path) :
    Except String Linter := do
  let resolver : Resolver := { home, log := { hasSink := false } }
  let (explicit, resolver) ← match config with
    | none => .ok (none, resolver)
    | some path =>
      match resolver.loadNamed fuel tree.layer path with
      | (_, some (.ok e), r) => .ok (some e, r)
      | (_, some (.error f), _) => .error f.message
      | (_, none, r) => .ok (none, r)
  let contents ← match tree.read (root.join ⟨ignoreFileName⟩) with
    | .ok text => .ok (some text)
    | .error f => if f.isNotFound then .ok none else .error (reasonOf f)
  match Folder.ofPath? root with
  | none => .error ("Not an absolute directory: " ++ root.text)
  | some folder =>
    .ok { folder, explicit, resolver, ignores := .compile (.file ignoreFileName) contents }

def configOf (l : Linter) (fuel : Nat) (tree : Disk) (document : Document) :
    RuleConfig × Linter :=
  match l.explicit with
  | some e => (e.config, l)
  | none =>
    let folder := Workspace.folderFor? [l.folder] document.uri
    let settings : Settings := { ignoring := .file ignoreFileName }
    let (_, e, resolver) := l.resolver.resolve fuel tree.layer { document, folder, settings }
    ((e.map (·.config)).getD .default, { l with resolver })

/-- The violations of a document, with the rules built in. -/
def lintDocument (l : Linter) (fuel : Nat) (tree : Disk) (document : Document) :
    List Violation × Linter :=
  let (config, l) := l.configOf fuel tree document
  let relative := Workspace.relativePath [l.folder] document
  let request : LintRequest :=
    { name := document.name, text := document.text, config, rules := [] }
  let asked := request.unlessIgnored l.ignores relative
  ((Engine.builtin.lint asked l.resolver.log).1, l)

/-- Lints a file; one that cannot be read has no report. -/
def lintFile (l : Linter) (fuel : Nat) (tree : Disk) (path : Path) :
    Option Findings × Linter :=
  match tree.read path, Url.ofFilePath? path with
  | .ok text, some uri =>
    let document : Document := { uri, text, language := "markdown", version := 0 }
    let (violations, l) := l.lintDocument fuel tree document
    (some ⟨path, text, violations⟩, l)
  | _, _ => (none, l)

def lintFiles (l : Linter) (fuel : Nat) (tree : Disk) : List Path → List Findings
  | [] => []
  | path :: rest =>
    let (report, l) := l.lintFile fuel tree path
    report.toList ++ lintFiles l fuel tree rest

end Linter

/-- A violation on one line: place, rule, description and detail. -/
def violationLine (path : Path) (v : Violation) : String :=
  let column := match v.span with
    | some span => ":" ++ toString span.column
    | none => ""
  let detail := match v.detail with
    | some d => " [" ++ d ++ "]"
    | none => ""
  path.text ++ ":" ++ toString v.line ++ column ++ " " ++ v.ruleAlias ++ " " ++ v.description ++ detail

def violationCount (reports : List Findings) : Nat :=
  reports.foldl (· + ·.violations.length) 0

def present (format : OutputFormat) (reports : List Findings) (tree : Disk) : Report :=
  let outcome := .ok (reports.any (!·.violations.isEmpty))
  match format with
  | .text =>
    { outcome
      output := reports.flatMap fun r => r.violations.map (violationLine r.path)
      errors := ["Checked " ++ toString reports.length ++ " files, found " ++
        toString (violationCount reports) ++ " issues"]
      tree }
  | .json =>
    let entries := reports.map fun r => Json.ofFields
      [("path", some (.str r.path.text)), ("violations", some (.arr (r.violations.map Violation.toJson)))]
    { outcome, output := [Json.pretty 0 (.arr entries)], tree }

structure FixTally where
  fixed : List (Path × Nat) := []
  failed : List (Path × String) := []
  /-- Violations without a fix. -/
  remaining : Nat := 0
  tree : Disk

def fixFile (dryRun : Bool) (s : FixTally) (r : Findings) : FixTally :=
  let s := { s with remaining := s.remaining + (r.violations.filter (·.fix.isNone)).length }
  let result := applyFixes r.text.toList r.violations .all
  if !result.modified then s
  else
    let fixed := s.fixed ++ [(r.path, result.applied)]
    if dryRun then { s with fixed }
    else
      match s.tree.write r.path (String.ofList result.content) with
      | .ok tree => { s with fixed, tree }
      | .error f => { s with failed := s.failed ++ [(r.path, reasonOf f)] }

def FixTally.report (s : FixTally) (dryRun : Bool) : Report :=
  let total := s.fixed.foldl (· + ·.2) 0
  let action := if dryRun then "Would fix" else "Fixed"
  let none_ := if total = 0 && s.failed.isEmpty then ["No fixable issues found."] else []
  let list :=
    if total > 0 then
      (action ++ " " ++ toString total ++ " issues in " ++ toString s.fixed.length ++ " files:") ::
        s.fixed.map fun (path, count) => "  " ++ path.text ++ ": " ++ toString count ++ " fixes"
    else []
  let manual :=
    if s.remaining > 0 then [toString s.remaining ++ " issues need manual attention."] else []
  let errors :=
    if s.failed.isEmpty then []
    else ("Failed to fix " ++ toString s.failed.length ++ " file(s):") ::
      s.failed.map fun (path, reason) => "  " ++ path.text ++ ": " ++ reason
  { outcome := .ok (s.remaining > 0 || !s.failed.isEmpty), output := none_ ++ list ++ manual
    errors, tree := s.tree }

def newConfigText : String :=
  Json.pretty 0 (.obj (Dict.insert "default" (.bool true) RuleConfig.default)) ++ "\n"

def writeNewConfig (tree : Disk) (force : Bool) : Report :=
  let path : Path := ⟨newConfigFileName⟩
  let attempt : Except String Disk :=
    match tree.create path newConfigText with
    | .ok tree => .ok tree
    | .error f =>
      if f = Disk.taken then
        if force then
          match tree.remove path with
          | .ok tree => (tree.create path newConfigText).mapError reasonOf
          | .error f => .error (reasonOf f)
        else .error "Config file already exists. Use --force to overwrite."
      else .error (reasonOf f)
  match attempt with
  | .ok tree => { outcome := .ok false, tree }
  | .error message => { outcome := .error message, tree }

def lintPatterns (fuel : Nat) (tree : Disk) (root : Path) (home : Option Path) (c : Command) :
    Except String (List Findings) := do
  let files ← (discover tree root c.patterns).mapError fun p => "Invalid pattern '" ++ p ++ "'"
  let linter ← Linter.start fuel tree root home (c.config.map (⟨·⟩))
  return linter.lintFiles fuel tree files

def Command.run (fuel : Nat) (tree : Disk) (root : Path) (home : Option Path) (c : Command) :
    Report :=
  match c.verb with
  | .lint =>
    match lintPatterns fuel tree root home c with
    | .ok reports => present c.format reports tree
    | .error message => { outcome := .error message, tree }
  | .fix =>
    match lintPatterns fuel tree root home c with
    | .ok reports => (reports.foldl (fixFile c.dryRun) { tree }).report c.dryRun
    | .error message => { outcome := .error message, tree }
  | .init => writeNewConfig tree c.force
  | .lsp => { outcome := .ok false, tree }

end LintDesk.Cli
