import LintDesk.Desk.State

/-!
What the actions of a task do. An action changes the desk, says what the task does after it, and
whether the task waits first.
-/

namespace LintDesk

/-- The effect of an action: the desk after it, what the task does next, and whether it waits
before that. -/
structure Effect where
  desk : Desk
  next : List Action := []
  waits : Bool := false

namespace Desk

/-- Waits for some time, if any, and then does the next action. -/
def after (d : Desk) (task milliseconds : Nat) (next : List Action) : Effect :=
  if milliseconds = 0 then { desk := d, next }
  else { desk := d.setTimer task milliseconds, next, waits := true }

/-! ### Violations -/

/-- Publishes the violations of a pass that is still current. -/
def publish (d : Desk) (c : Collection) (generation : Nat) (violations : List Violation) : Desk :=
  let line := (d.cursor.filter (·.1 == c.document.uri)).map (·.2)
  let diagnostics := Diagnostic.build c.document c.settings.focusMode line violations
  if d.enabled && d.carries c.document.uri generation then
    (d.tell (.publish c.document diagnostics)).note (.published c.document generation)
  else d

def useViolations (d : Desk) (task : Nat) (c : Collection) (violations : List Violation) : Desk :=
  match c.purpose with
  | .publish generation => d.publish c generation violations
  | .report => d.leave task (.violations violations)
  | .fix filter =>
    let text := c.document.text.toList
    let result := applyFixes text violations filter
    let edit :=
      if result.modified then some (fullEdit text (String.ofList result.content)) else none
    d.leave task (.edit edit)

/-- Starts the engine on a document that is not ignored. -/
def invoke (d : Desk) (task : Nat) (c : Collection) (config : RuleConfig) (ignores : IgnoreSet)
    (rules : List CustomRule) : Effect :=
  if ignores.ignores (c.workspace.relativePath c.document) then
    { desk := d.useViolations task c [] }
  else
    let name := c.document.name
    let (engineTask, d) := d.spawn [.evaluate { name, text := c.document.text, config, rules }]
    { desk := d, next := [.collectResult c name engineTask] }

/-- Takes the result of an engine task, or waits for it. -/
def takeResult (d : Desk) (task : Nat) (c : Collection) (name : String) (engineTask : Nat) :
    Effect :=
  match d.outcome? engineTask with
  | some (.engine result) =>
    let (violations, log) := result.violations name d.log
    { desk := { d with log }.useViolations task c violations }
  | _ =>
    { desk := { d with awaiting := d.awaiting ++ [(task, engineTask)] }
      next := [.collectResult c name engineTask]
      waits := true }

/-! ### Custom rules -/

/-- Stores the gate after a task went through it, and lets the task go on that may ask now. -/
def putGate (d : Desk) (task : Nat) (g : Gate) : Desk :=
  let before := d.gate.holder
  let d := { d with gate := g }
  match g.holder with
  | some next => if before ≠ some next ∧ next ≠ task then d.wake next else d
  | none => d

def useRules (d : Desk) (task : Nat) (rules : List CustomRule) : RuleClient → Effect
  | .direct => { desk := d.leave task (.rules rules) }
  | .collection c config ignores => d.invoke task c config ignores rules

def followPassage (d : Desk) (task : Nat) (client : RuleClient) (r : RuleRequest) :
    Passage → Effect
  | .queued => { desk := d, next := [.takeTurn client r], waits := true }
  | .asking epoch =>
    let d := { d with prompts := d.prompts ++ [r.locations.value] }
    d.after task d.promptDelay [.answer client r epoch]
  | .loading epoch holds left rules =>
    { desk := d, next := [.ask (.rules client r (.loading epoch holds left rules))] }
  | .done rules => d.useRules task rules client

def requestRules (d : Desk) (task : Nat) (client : RuleClient) (r : RuleRequest) : Effect :=
  let (p, g) := d.gate.enter task (d.trust.isTrusted d.files) r
  (d.putGate task g).followPassage task client r p

/-- The user answers the question of a request, and a workspace that is always allowed is
remembered. -/
def takeAnswer (d : Desk) (task : Nat) (client : RuleClient) (r : RuleRequest) (epoch : Nat) :
    Effect :=
  let choice := d.choices.head?.join
  let d := { d with choices := d.choices.tail }
  let d :=
    match choice, r.workspace with
    | some .alwaysAllow, some workspace =>
      match d.trust.trust d.files workspace with
      | .ok (trust, files) => { d with trust, files }
      | .error f =>
        let message :=
          "Unable to remember trusted workspace '" ++ workspace ++ "': " ++ f.message
        { d with log := d.log.error message }
    | _, _ => d
  let (p, g) := d.gate.answer r epoch choice
  (d.putGate task g).followPassage task client r p

/-! ### Collecting violations -/

/-- The ignore set of a document. The first use of an ignore file starts reading it. -/
def ignoreSet (d : Desk) (c : Collection) : IgnoreSet × Desk :=
  let key : IgnoreKey := ⟨c.folder?.map (·.uri), c.settings.ignoring⟩
  let (set, ignores) := d.ignores.get key
  let d := { d with ignores }
  match c.settings.ignoring with
  | .globs _ => (set, d)
  | .file name =>
    let served := c.folder?.any (·.uri.hasFileSystem) || c.document.uri.hasFileSystem
    if served && d.files.layer.isAvailable then
      match d.ignores.reserve key d.ignores.epoch with
      | (true, ignores) =>
        let work := FileWork.ignoreFile key ignores.epoch (c.ignorePath name)
        (set, ({ d with ignores }.spawn [.ask work]).2)
      | (false, ignores) => (set, { d with ignores })
    else (set, d)

/-- Goes on with a lookup: to its next call, or with the configuration to the custom rules. -/
def followLookup (d : Desk) (task : Nat) (c : Collection) : Lookup → Effect
  | .done entry =>
    let (ignores, d) := d.ignoreSet c
    d.requestRules task (.collection c entry.config ignores) c.ruleRequest
  | l => { desk := d, next := [.ask (.lookup c l)] }

/-- The collection of a document, with the settings and the workspace as they are now. -/
def collectionOf (d : Desk) (document : Document) (purpose : Purpose) : Collection where
  document := document
  settings := d.settingsFor document.uri
  workspace := d.workspace
  purpose := purpose

def startCollection (d : Desk) (task : Nat) (c : Collection) : Effect :=
  let r := { d.resolver with log := d.log }
  let (l, r) := Lookup.start c.query (d.layerFor c.document) r
  { d with resolver := r, log := r.log }.followLookup task c l

/-- Collects the violations of a document; one that is not linted has none. -/
def collect (d : Desk) (task : Nat) (document : Document) (purpose : Purpose) : Effect :=
  let c := d.collectionOf document purpose
  if c.isLintable then d.startCollection task c else { desk := d.useViolations task c [] }

/-- Starts a pass; nothing comes of it if linting is off or the document is not linted. -/
def startPass (d : Desk) (task : Nat) (document : Document) : Effect :=
  let (generation, d) := d.openPass document
  let c := d.collectionOf document (.publish generation)
  if d.enabled && c.isLintable then d.startCollection task c else { desk := d }

/-- Lints a document now; a delayed lint of it is dropped. -/
def lintNow (d : Desk) (task : Nat) (document : Document) : Effect :=
  (d.dropPending document.uri).startPass task document

/-! ### The desk as a whole -/

/-- Makes every pass outdated and clears all diagnostics. -/
def clearAll (d : Desk) : Desk :=
  let d := d.outdateAll false
  ({ d with log := d.log.reset }.tell .clearAll).note .refreshed

/-- Clears all diagnostics; the visible documents are linted next. -/
def startRefresh (d : Desk) : Effect :=
  { desk := d.clearAll, next := [.lintVisible] }

def startEnabling (d : Desk) (enabled : Bool) : Effect :=
  if d.enabled = enabled then { desk := d }
  else
    let d := { d with enabled }.note (.switched enabled)
    if enabled then d.startRefresh else { desk := (d.outdateAll true).tell .clearAll }

/-- Closes a document: nothing more is done for it, and its diagnostics are cleared. -/
def closeDocument (d : Desk) (uri : Url) : Desk :=
  let pending := (d.schedule? uri).bind (·.pending)
  let d := { d with schedules := d.schedules.filter (·.1 ≠ uri) }
  let d := match pending with
    | some task => d.abort task
    | none => d
  ({ d with runModes := d.runModes.filter (·.1 ≠ uri) }.tell (.clear uri)).note (.closed uri)

/-! ### The file layer -/

/-- The call that some work waits for, and whether a file layer is there to take it. -/
def callOf (d : Desk) : FileWork → Option FileCall × Bool
  | .lookup c l => (l.call?, c.document.uri.hasFileSystem)
  | .rules _ r p => (p.call? d.gate r, true)
  | .ignoreFile _ _ path => (some (.read path), true)

def makeCall (d : Desk) (task : Nat) (w : FileWork) : Effect :=
  match d.callOf w with
  | (some call, true) =>
    { d with calls := d.calls ++ [call] }.after task (d.files.delay call.path) [.take w]
  | _ => { desk := d, next := [.take w] }

def takeCall (d : Desk) (task : Nat) : FileWork → Effect
  | .lookup c l =>
    let r := { d.resolver with log := d.log }
    let (l, r) := l.resume c.query (d.layerFor c.document) r
    { d with resolver := r, log := r.log }.followLookup task c l
  | .rules client r p =>
    let text := match p.call? d.gate r with
      | some call => d.files.layer.read call.path
      | none => .error .unavailable
    let (p, g, log) := d.gate.receive r text d.log p
    ({ d with log }.putGate task g).followPassage task client r p
  | .ignoreFile key epoch path =>
    match ignoreFilePredicate path (d.files.layer.read path) with
    | .ok (some predicate) =>
      match d.ignores.append key epoch predicate with
      | (true, ignores) => { d with ignores }.startRefresh
      | (false, ignores) => { desk := { d with ignores } }
    | .ok none => { desk := d }
    | .error f => { desk := { d with log := d.log.error f.message } }

/-! ### Actions -/

def act (d : Desk) (task : Nat) : Action → Effect
  | .lint document => d.lintNow task document
  | .pass document => d.startPass task document
  | .collect document purpose => d.collect task document purpose
  | .ask w => d.makeCall task w
  | .take w => d.takeCall task w
  | .request client r => d.requestRules task client r
  | .takeTurn client r =>
    let (p, g) := d.gate.takeTurn r
    (d.putGate task g).followPassage task client r p
  | .answer client r epoch => d.takeAnswer task client r epoch
  | .evaluate r =>
    { d with requests := d.requests ++ [r] }.after task d.engineDelay [.conclude r d.engine]
  | .conclude r e => { desk := d.leave task (.engine (e.evaluate r)) }
  | .collectResult c name engineTask => d.takeResult task c name engineTask
  | .holdBack document => d.after task quietTime [.fire document]
  | .fire document => { desk := (d.spawn [.pass document]).2 }
  | .save document =>
    match d.runMode document.uri with
    | (.onSave, d) => d.lintNow task document
    | (.onType, d) => { desk := d }
  | .refresh => d.startRefresh
  | .lintVisible => { desk := d, next := d.visible.map .lint }
  | .startOver => d.forgetAll.startRefresh
  | .setEnabled enabled => d.startEnabling enabled
  | .toggle => (d.leave task (.flag (!d.enabled))).startEnabling (!d.enabled)
  | .close uri => { desk := d.closeDocument uri }
  | .sleep milliseconds => d.after task milliseconds []
  | .await other =>
    if d.tasks.any (·.1 = other) then
      { desk := { d with awaiting := d.awaiting ++ [(task, other)] }
        next := [.await other]
        waits := true }
    else { desk := d }

def setAgenda (d : Desk) (task : Nat) (agenda : List Action) : Desk :=
  { d with tasks := d.tasks.map fun t => if t.1 = task then (task, agenda) else t }

def finishTask (d : Desk) (task : Nat) : Desk :=
  { d with tasks := d.tasks.filter (·.1 ≠ task), running := none }.wakeAwaiting task

def advance (d : Desk) (task : Nat) : Desk :=
  match d.tasks.lookup task with
  | none => { d with running := none }
  | some [] => d.finishTask task
  | some (action :: rest) =>
    let effect := d.act task action
    let d := effect.desk.setAgenda task (effect.next ++ rest)
    if effect.waits then { d with running := none } else d

end Desk

end LintDesk
