import LintDesk.Config.Lookup
import LintDesk.Edit.Batch
import LintDesk.Edit.Diagnostic
import LintDesk.Engine.Basic
import LintDesk.Ignore.Set
import LintDesk.Trust.Gate

/-!
The work of a desk as values. A task is a list of actions. An action is what a task does between
two points at which it may have to wait, so no other task comes between its parts; between two
actions of a task others may go on.
-/

namespace LintDesk

/-- What the violations of a document are collected for. -/
inductive Purpose where
  /-- To be shown, if the pass is still current. -/
  | publish (generation : Nat)
  /-- To be handed out. -/
  | report
  /-- To be fixed. -/
  | fix (filter : FixChoice)
  deriving Repr

/-- A document whose violations are being collected, with the settings and the workspace as they
were at the start. -/
structure Collection where
  document : Document
  settings : Settings
  workspace : Workspace
  purpose : Purpose
  deriving Repr

namespace Collection

def folder? (c : Collection) : Option Folder :=
  c.workspace.folderFor? c.document.uri

def query (c : Collection) : Query where
  document := c.document
  folder := c.folder?
  settings := c.settings

def ruleRequest (c : Collection) : RuleRequest where
  locations := c.settings.customRules
  workspace := c.workspace.identity?
  baseDir := c.folder?.bind Folder.path?

/-- The path of an ignore file: relative names are below the folder. -/
def ignorePath (c : Collection) (name : String) : Path :=
  match c.folder?.bind Folder.path? with
  | some root => root.join ⟨name⟩
  | none => ⟨name⟩

def isLintable (c : Collection) : Bool :=
  c.document.isLintable c.settings.languages

end Collection

inductive RuleClient where
  /-- The task asked for the rules themselves. -/
  | direct
  /-- A collection that goes on with them. -/
  | collection (c : Collection) (config : RuleConfig) (ignores : IgnoreSet)
  deriving Repr

inductive FileWork where
  | lookup (c : Collection) (l : Lookup)
  | rules (client : RuleClient) (request : RuleRequest) (p : Passage)
  | ignoreFile (key : IgnoreKey) (epoch : Nat) (path : Path)
  deriving Repr

inductive Action where
  /-- Lint a document now; a delayed lint of it is dropped. -/
  | lint (d : Document)
  /-- Start a pass over a document. -/
  | pass (d : Document)
  /-- Collect the violations of a document. -/
  | collect (d : Document) (purpose : Purpose)
  /-- Make the call that `w` waits for. -/
  | ask (w : FileWork)
  /-- Take the answer to it. -/
  | take (w : FileWork)
  /-- Ask for custom rules. -/
  | request (client : RuleClient) (r : RuleRequest)
  /-- It is this request's turn to ask the user. -/
  | takeTurn (client : RuleClient) (r : RuleRequest)
  /-- Take the user's answer. -/
  | answer (client : RuleClient) (r : RuleRequest) (epoch : Nat)
  /-- Let the engine work on a request. -/
  | evaluate (r : LintRequest)
  /-- Store the engine's result. -/
  | conclude (r : LintRequest) (e : Engine)
  /-- Take the result of an engine task. -/
  | collectResult (c : Collection) (name : String) (engineTask : Nat)
  /-- Wait before a document that was edited is linted. -/
  | holdBack (d : Document)
  /-- Start the pass that was delayed. -/
  | fire (d : Document)
  /-- Lint a saved document, if that is when it is linted. -/
  | save (d : Document)
  /-- Clear all diagnostics and lint the visible documents. -/
  | refresh
  /-- Lint the documents that are visible now, one after the other. -/
  | lintVisible
  /-- Forget all that was read, then refresh. -/
  | startOver
  | setEnabled (enabled : Bool)
  | toggle
  | close (uri : Url)
  | sleep (milliseconds : Nat)
  /-- Wait for a task to end. -/
  | await (task : Nat)
  deriving Repr

inductive Outcome where
  | rules (rules : List CustomRule)
  | violations (list : List Violation)
  | edit (e : Option TextEdit)
  | flag (b : Bool)
  | engine (result : EngineResult)
  deriving Repr

inductive Event where
  | publish (d : Document) (diagnostics : List Diagnostic)
  | clear (uri : Url)
  | clearAll
  deriving Repr

/-- What becomes of passes. -/
inductive Mark where
  /-- A pass over a document was begun. -/
  | began (d : Document) (generation : Nat)
  /-- The pass of a generation published its diagnostics. -/
  | published (d : Document) (generation : Nat)
  | closed (uri : Url)
  /-- All diagnostics were cleared, to be collected anew. -/
  | refreshed
  | switched (enabled : Bool)
  deriving DecidableEq, Repr

end LintDesk
