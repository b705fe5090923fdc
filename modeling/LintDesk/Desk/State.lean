import LintDesk.Desk.Task
import LintDesk.Trust.Store

/-!
The state of a desk: caches, schedules and tasks of one lint service, together with what surrounds
it — files, the user, the host's view — and a record of what it did.

Every pass over a document takes a fresh generation and may publish only while the document's
schedule still carries it. Newer passes, closing the document and refreshing replace or drop the
generation, and generations are never used again.
-/

namespace LintDesk

/-- The schedule of a document: the task that delays its next lint, and its current pass. -/
structure Schedule where
  pending : Option Nat := none
  generation : Nat := 0
  deriving DecidableEq, Repr

structure Timer where
  due : Nat
  task : Nat
  deriving DecidableEq, Repr

/-- A desk. Task 0 is the host's own; it runs when no other task can, and after a whole round of
them. -/
structure Desk where
  resolver : Resolver := {}
  gate : Gate := {}
  ignores : IgnoreCache := {}
  settings : SettingsLayers := {}
  workspace : Workspace := []
  schedules : List (Url × Schedule) := []
  /-- The last generation that was used. -/
  generation : Nat := 0
  runModes : List (Url × RunMode) := []
  enabled : Bool := true
  log : Journal := {}
  /-- The files around the desk. -/
  files : Files := .memory {}
  trust : TrustLedger := .memory [] true
  engine : Engine := .builtin
  /-- How long the engine takes. -/
  engineDelay : Nat := 0
  /-- The answers the user is going to give; nothing for a dismissed question. -/
  choices : List (Option TrustChoice) := []
  /-- How long the user takes. -/
  promptDelay : Nat := 0
  /-- The documents the host shows, and the cursor. -/
  visible : List Document := []
  cursor : Option (Url × Nat) := none
  /-- What was done. -/
  events : List Event := []
  history : List Mark := []
  requests : List LintRequest := []
  calls : List FileCall := []
  prompts : List (List String) := []
  /-- The tasks. -/
  clock : Nat := 0
  tasks : List (Nat × List Action) := []
  /-- The tasks that can go on, first come first served. -/
  ready : List Nat := []
  running : Option Nat := none
  hostReady : Bool := false
  /-- How many tasks may still run before the host is looked at. -/
  turns : Nat := 0
  timers : List Timer := []
  nextTask : Nat := 1
  outcomes : List (Nat × Outcome) := []
  /-- Tasks that wait for the end of others, as pairs of the waiting and the awaited. -/
  awaiting : List (Nat × Nat) := []
  deriving Repr

namespace Desk

def host : Nat := 0

/-- The number of tasks in a round. -/
def round : Nat := 61

/-- The delay between the last edit and the lint it causes, in milliseconds. -/
def quietTime : Nat := 500

/-! ### Records -/

def tell (d : Desk) (e : Event) : Desk :=
  { d with events := d.events ++ [e] }

def note (d : Desk) (m : Mark) : Desk :=
  { d with history := d.history ++ [m] }

/-! ### Tasks -/

def wake (d : Desk) (task : Nat) : Desk :=
  if task = host then { d with hostReady := true }
  else if d.ready.contains task then d
  else { d with ready := d.ready ++ [task] }

def spawn (d : Desk) (agenda : List Action) : Nat × Desk :=
  (d.nextTask,
    { d with
      tasks := d.tasks ++ [(d.nextTask, agenda)]
      ready := d.ready ++ [d.nextTask]
      nextTask := d.nextTask + 1 })

def abort (d : Desk) (task : Nat) : Desk :=
  { d with
    tasks := d.tasks.filter (·.1 ≠ task)
    ready := d.ready.filter (· ≠ task)
    timers := d.timers.filter (·.task ≠ task) }

def setTimer (d : Desk) (task milliseconds : Nat) : Desk :=
  { d with timers := d.timers ++ [⟨d.clock + milliseconds, task⟩] }

/-- Stores what a task leaves behind, over what it left before. -/
def leave (d : Desk) (task : Nat) (o : Outcome) : Desk :=
  { d with outcomes := (task, o) :: d.outcomes.filter (·.1 ≠ task) }

def outcome? (d : Desk) (task : Nat) : Option Outcome :=
  d.outcomes.lookup task

def wakeAwaiting (d : Desk) (task : Nat) : Desk :=
  let waiting := (d.awaiting.filter (·.2 = task)).map (·.1)
  waiting.foldl wake { d with awaiting := d.awaiting.filter (·.2 ≠ task) }

/-! ### Schedules -/

def schedule? (d : Desk) (uri : Url) : Option Schedule :=
  d.schedules.lookup uri

def putSchedule (d : Desk) (uri : Url) (s : Schedule) : Desk :=
  { d with schedules := (uri, s) :: d.schedules.filter (·.1 ≠ uri) }

/-- Starts a pass: its generation is new, and the document carries it. -/
def openPass (d : Desk) (document : Document) : Nat × Desk :=
  let generation := d.generation + 1
  let s := (d.schedule? document.uri).getD {}
  let d := { d with generation }.putSchedule document.uri { s with generation }
  (generation, d.note (.began document generation))

def carries (d : Desk) (uri : Url) (generation : Nat) : Bool :=
  (d.schedule? uri).any (·.generation == generation)

def dropPending (d : Desk) (uri : Url) : Desk :=
  match d.schedule? uri with
  | some { pending := some task, generation } =>
    (d.putSchedule uri { pending := none, generation }).abort task
  | _ => d

/-- Gives schedules new generations, one after the other. -/
def renew (cancel : Bool) : (generation : Nat) → List (Url × Schedule) → List (Url × Schedule)
  | _, [] => []
  | generation, (uri, s) :: rest =>
    (uri, { pending := if cancel then none else s.pending, generation := generation + 1 }) ::
      renew cancel (generation + 1) rest

/-- Makes every running pass outdated, and with `cancel` drops every delayed lint. -/
def outdateAll (d : Desk) (cancel : Bool) : Desk :=
  let pending := if cancel then d.schedules.filterMap (·.2.pending) else []
  let renewed :=
    { d with
      schedules := renew cancel d.generation d.schedules
      generation := d.generation + d.schedules.length }
  pending.foldl abort renewed

/-- Lints a document once nothing more happens to it for a while. -/
def lintSoon (d : Desk) (document : Document) : Desk :=
  let s := (d.schedule? document.uri).getD {}
  let (task, d) := d.spawn [.holdBack document]
  let d := d.putSchedule document.uri { s with pending := some task }
  match s.pending with
  | some previous => d.abort previous
  | none => d

/-! ### Settings and caches -/

def settingsFor (d : Desk) (uri : Url) : Settings :=
  d.settings.settingsFor (some uri)

/-- When a document is linted; remembered until the configuration is invalidated. -/
def runMode (d : Desk) (uri : Url) : RunMode × Desk :=
  match d.runModes.lookup uri with
  | some mode => (mode, d)
  | none =>
    let mode := (d.settingsFor uri).run
    (mode, { d with runModes := (uri, mode) :: d.runModes })

def didChange (d : Desk) (document : Document) : Desk :=
  match d.runMode document.uri with
  | (.onType, d) => d.lintSoon document
  | (.onSave, d) => d

def cursorMoved (d : Desk) (document : Document) : Desk :=
  if (d.settingsFor document.uri).focusMode.isEnabled then d.lintSoon document else d

def forgetConfig (d : Desk) : Desk :=
  { d with
    resolver := { d.resolver with cache := d.resolver.cache.invalidate }
    runModes := [] }

def forgetIgnores (d : Desk) : Desk :=
  { d with ignores := d.ignores.invalidate }

def forgetRules (d : Desk) : Desk :=
  { d with gate := d.gate.invalidate }

def forgetAll (d : Desk) : Desk :=
  d.forgetConfig.forgetIgnores.forgetRules

def layerFor (d : Desk) (document : Document) : FileLayer :=
  if document.uri.hasFileSystem then d.files.layer else .none

end Desk

end LintDesk
