import LintDesk.Files.Layer
import LintDesk.Json.Lenient
import LintDesk.Journal
import LintDesk.Rule.Custom
import LintDesk.Settings.Basic

/-!
The gate in front of custom rules. Rules that shared settings name are loaded only after the user
has agreed, or in a workspace the user trusts. Requests for the same rules share one outcome, and
the user is asked one question at a time: requests that need an answer queue up, first come first
served. Invalidation starts a new epoch, and outcomes of earlier epochs are not stored.
-/

namespace LintDesk

inductive TrustChoice where
  | allowOnce
  | alwaysAllow
  | block
  deriving DecidableEq, Repr

structure RuleRequest where
  locations : Scoped (List String)
  /-- What the workspace is trusted by. -/
  workspace : Option String
  /-- What relative locations are relative to. -/
  baseDir : Option Path
  deriving Repr

/-- Requests with the same key share one outcome. -/
structure RuleKey where
  baseDir : Option (List Component)
  locations : List String
  requiresTrust : Bool
  deriving DecidableEq, Repr

def RuleRequest.key (r : RuleRequest) : RuleKey where
  baseDir := r.baseDir.map Path.components
  locations := r.locations.value
  requiresTrust := r.locations.scope.requiresTrust

inductive RuleStatus where
  | unloaded
  | prompting
  | loaded (rules : List CustomRule)
  | blocked
  deriving DecidableEq, Repr

structure Gate where
  states : List (RuleKey × RuleStatus) := []
  epoch : Nat := 0
  /-- The request that may ask the user now. -/
  holder : Option Nat := none
  /-- The requests that wait for their turn to ask. -/
  waiting : List Nat := []
  /-- Directories that `{id}/` at the start of a location stands for. -/
  extensions : List (String × Path) := []
  deriving Repr

/-- A request on its way through the gate. -/
inductive Passage where
  /-- Waiting for its turn to ask. -/
  | queued
  /-- The user is being asked. -/
  | asking (epoch : Nat)
  /-- The first of `left` is being read. `holds` says whether it still has its turn to ask. -/
  | loading (epoch : Nat) (holds : Bool) (left : List String) (rules : List CustomRule)
  | done (rules : List CustomRule)
  deriving Repr

namespace Gate

def state (g : Gate) (key : RuleKey) : RuleStatus :=
  (g.states.lookup key).getD .unloaded

def put (g : Gate) (key : RuleKey) (s : RuleStatus) : Gate :=
  { g with states := (key, s) :: g.states.filter (·.1 ≠ key) }

/-- Starts over; called when settings change. -/
def invalidate (g : Gate) : Gate :=
  { g with states := [], epoch := g.epoch + 1 }

def settled? (g : Gate) (key : RuleKey) : Option (List CustomRule) :=
  match g.state key with
  | .loaded rules => some rules
  | .blocked => some []
  | _ => none

/-- Stores an outcome unless its epoch is over. -/
def settle (g : Gate) (key : RuleKey) (epoch : Nat) (s : RuleStatus) : Gate :=
  if g.epoch = epoch then g.put key s else g

/-- Gives the turn to ask to the next in the queue. -/
def release (g : Gate) : Gate :=
  { g with holder := g.waiting.head?, waiting := g.waiting.tail }

/-- Ends a request, which gives up its turn if it has it. -/
def finish (g : Gate) (holds : Bool) (rules : List CustomRule) : Passage × Gate :=
  (.done rules, if holds then g.release else g)

/-- Goes on loading, or ends when nothing is left to load. -/
def load (g : Gate) (r : RuleRequest) (epoch : Nat) (holds : Bool) (left : List String)
    (rules : List CustomRule) : Passage × Gate :=
  match left with
  | [] => (g.settle r.key epoch (.loaded rules)).finish holds rules
  | _ :: _ => (.loading epoch holds left rules, g)

/-- A request has its turn to ask: it asks, unless the outcome has become known. -/
def takeTurn (g : Gate) (r : RuleRequest) : Passage × Gate :=
  match g.settled? r.key with
  | some rules => g.finish true rules
  | none => (.asking g.epoch, g.put r.key .prompting)

def enter (g : Gate) (who : Nat) (isTrusted : String → Bool) (r : RuleRequest) : Passage × Gate :=
  match g.settled? r.key with
  | some rules => (.done rules, g)
  | none =>
    if r.locations.value.isEmpty then
      (g.settle r.key g.epoch (.loaded [])).finish false []
    else if !r.key.requiresTrust || r.workspace.any isTrusted then
      g.load r g.epoch false r.locations.value []
    else
      match g.holder with
      | none => { g with holder := some who }.takeTurn r
      | some _ => (.queued, { g with waiting := g.waiting ++ [who] })

/-- The user has answered; a dismissed question counts as a refusal. -/
def answer (g : Gate) (r : RuleRequest) (epoch : Nat) (choice : Option TrustChoice) :
    Passage × Gate :=
  match choice.getD .block with
  | .block => (g.settle r.key epoch .blocked).finish true []
  | .allowOnce => g.load r epoch true r.locations.value []
  | .alwaysAllow => g.load r epoch true r.locations.value []

/-- Splits `{id}/rest`. -/
def extensionReference? (location : String) : Option (String × String) :=
  match location.toList with
  | '\x7b' :: rest =>
    let id := rest.takeWhile (· ≠ '\x7d')
    match rest.drop id.length with
    | '\x7d' :: '/' :: relative =>
      if id.isEmpty then none else some (String.ofList id, String.ofList relative)
    | _ => none
  | _ => none

def pathOf (g : Gate) (baseDir : Option Path) (location : String) : Path :=
  let known := do
    let (id, relative) ← extensionReference? location
    let root ← g.extensions.lookup id
    return root.join ⟨relative⟩
  match known with
  | some path => path
  | none =>
    match baseDir with
    | some base => base.join ⟨location⟩
    | none => ⟨location⟩

/-- The candidates in the text of a rule module. -/
def candidates (path : Path) (text : Except Fault String) : Except Fault (List Json) :=
  match text with
  | .error f => .error (.customRule ("Unable to read '" ++ path.text ++ "': " ++ f.message))
  | .ok text =>
    match Json.Lenient.parse? text with
    | some (.arr items) => .ok items
    | some v => .ok [v]
    | none =>
      let cause := Fault.parse "malformed text"
      .error (.customRule ("Unable to parse '" ++ path.text ++ "': " ++ cause.message))

/-- Keeps the candidates that are rules, and reports the others. -/
def accept (location : String) (log : Journal) :
    List Json → List CustomRule × Journal
  | [] => ([], log)
  | v :: rest =>
    match CustomRule.ofJson v with
    | .ok rule =>
      let (rules, log) := accept location log rest
      (rule :: rules, log)
    | .error d =>
      accept location
        (log.error ("Skipping invalid custom rule in '" ++ location ++ "': " ++ d.message)) rest

/-- The rules of a location; one that cannot be loaded has none. -/
def rulesOf (location : String) (path : Path) (text : Except Fault String) (log : Journal) :
    List CustomRule × Journal :=
  match candidates path text with
  | .ok items => accept location log items
  | .error f =>
    ([], log.error ("Skipping custom rule location '" ++ location ++ "': " ++ f.message))

/-- The text of the location that is being read has come. -/
def receive (g : Gate) (r : RuleRequest) (text : Except Fault String) (log : Journal) :
    Passage → Passage × Gate × Journal
  | .loading epoch holds (location :: left) rules =>
    let (found, log) := rulesOf location (g.pathOf r.baseDir location) text log
    let (p, g) := g.load r epoch holds left (rules ++ found)
    (p, g, log)
  | p => (p, g, log)

end Gate

namespace Passage

def call? (g : Gate) (r : RuleRequest) : Passage → Option FileCall
  | loading _ _ (location :: _) _ => some (.read (g.pathOf r.baseDir location))
  | _ => none

end Passage

end LintDesk
