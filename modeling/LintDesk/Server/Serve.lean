import LintDesk.Server.CodeAction
import LintDesk.Server.Service
import LintDesk.Server.Settings

/-!
The language server. Notices change what the desk knows and give it work; requests are answered
when the work they need is done. Before the server is started and after it is shut down only the
requests that start and end it are carried out.
-/

namespace LintDesk

namespace Desk

def document? (d : Desk) (uri : Url) : Option Document :=
  d.visible.find? (·.uri == uri)

/-- Stores an open document, over the one with the same name. -/
def putDocument (d : Desk) (document : Document) : Desk :=
  if (d.document? document.uri).isSome then
    { d with visible := d.visible.map fun v => if v.uri == document.uri then document else v }
  else { d with visible := d.visible ++ [document] }

/-- Replaces the text of an open document, and its version if one is given. -/
def updateDocument (d : Desk) (uri : Url) (text : String) (version : Option Int) :
    Option Document × Desk :=
  match d.document? uri with
  | none => (none, d)
  | some old =>
    let document := { old with text, version := version.getD old.version }
    (some document, d.putDocument document)

/-- Forgets a document that was closed, and the cursor if it was there. -/
def dropDocument (d : Desk) (uri : Url) : Desk :=
  { d with
    visible := d.visible.filter (·.uri != uri)
    cursor := d.cursor.filter (·.1 != uri) }

def start (d : Desk) (a : Action) : Desk :=
  (d.spawn [a]).2

end Desk

namespace Server

/-- Takes note of what a client tells: the desk knows it at once, caches and diagnostics that are
out of date go at once, and lints are done by tasks of their own. -/
def Notice.apply (d : Desk) : Notice → Desk
  | .started => d
  | .opened document => (d.putDocument document).start (.lint document)
  | .changed uri version texts =>
    match texts.getLast? with
    | none => d
    | some text =>
      match d.updateDocument uri text (some version) with
      | (some document, d) => d.didChange document
      | (none, d) => d
  | .saved uri text =>
    let (document, d) := match text with
      | some text => d.updateDocument uri text none
      | none => (d.document? uri, d)
    match document with
    | some document => d.start (.save document)
    | none => d
  | .closed uri => (d.dropDocument uri).closeDocument uri
  | .configured settings =>
    { d with settings := settingsOf (some settings) }.forgetAll.clearAll.start .lintVisible
  | .filesChanged uris =>
    if uris.any fun u => affectsLinting u (d.settingsFor u).ignoring then
      d.forgetAll.clearAll.start .lintVisible
    else d
  | .cursorMoved uri line =>
    let d := { d with cursor := some (uri, line) }
    match d.document? uri with
    | some document => d.cursorMoved document
    | none => d

inductive Phase where
  | waiting
  | running
  | shutDown
  | exited
  deriving DecidableEq, Repr

structure Session where
  phase : Phase := .waiting
  desk : Desk := {}
  publisher : Publisher := {}
  /-- Whether the client is going to open the pages it is asked to. -/
  pages : List Bool := []
  /-- What was sent. -/
  sent : List Outgoing := []

namespace Session

/-- A session on a tree, for a user with the given home directory and configuration directory.
`replies` are the answers that the client is going to give, by method; none for an error. -/
def create (tree : Disk) (home configDir : Path) (replies : String → List (Option Json)) :
    Session where
  desk := {
    files := .disk tree
    trust := .file (TrustLedger.defaultPath configDir)
    resolver := { home := some home }
    choices := (replies "window/showMessageRequest").map choiceOfReply? }
  pages := (replies "window/showDocument").map openedOfReply

def tree (s : Session) : Disk :=
  match s.desk.files with
  | .disk tree => tree
  | .memory _ => {}

/-- Someone else changes files. -/
def withTree (s : Session) (tree : Disk) : Session :=
  { s with desk := { s.desk with files := .disk tree } }

def send (s : Session) (m : Outgoing) : Session :=
  { s with sent := s.sent ++ [m] }

/-- Stores the desk after some work, and sends what it has to tell; after the end nobody
listens. -/
def putDesk (s : Session) (d : Desk) : Session :=
  let events := d.events.drop s.desk.events.length
  let publisher := events.foldl Publisher.tell s.publisher
  let lines := d.log.lines.drop s.desk.log.lines.length
  let shows := d.log.shows - s.desk.log.shows
  let alarm := Outgoing.message .error "mdguard reported an error; see the output log for details."
  let messages :=
    (d.prompts.drop s.desk.prompts.length).map .question ++
    lines.map (.log .log) ++ List.replicate shows alarm ++
    (publisher.sent.drop s.publisher.sent.length).map .publication
  { s with desk := d, publisher, sent := if s.phase = .exited then s.sent else s.sent ++ messages }

def advance (s : Session) (fuel milliseconds : Nat) : Session :=
  s.putDesk (s.desk.perform fuel [.sleep milliseconds])

/-- The answer to a request that starts the server: what it can do, and its name. -/
def welcome : Json :=
  .mkObj [
    ("capabilities", .mkObj [
      ("textDocumentSync", .mkObj [("openClose", .bool true), ("change", .nat 1),
        ("save", .mkObj [("includeText", .bool true)])]),
      ("codeActionProvider", .mkObj [
        ("codeActionKinds", .strings ["quickfix", "source.fixAll"]),
        ("resolveProvider", .bool false)]),
      ("documentRangeFormattingProvider", .bool true),
      ("executeCommandProvider", .mkObj [("commands", .strings
        ["mdguard.fixLine", "mdguard.fixAll", "mdguard.toggleLinting", openCommand])])]),
    ("serverInfo", .mkObj [("name", .str "mdguard-lsp"), ("version", .str "0.1.0")])]

def start (s : Session) (o : StartOptions) : Session :=
  { s with
    phase := .running
    desk := { s.desk with workspace := o.folders, settings := settingsOf o.settings } }

/-! ### Commands -/

def argument (decode : Json → Option α) : List Json → Except RequestError α
  | [] => .error .missingArgument
  | v :: _ => (decode v).elim (.error .malformedParams) .ok

def sendEdit (s : Session) (uri : Url) : Option TextEdit → Session
  | some e => s.send (.edit uri e)
  | none => s

def fixLine (s : Session) (a : LineFixArgument) : Session :=
  match s.desk.document? a.uri with
  | some document => s.sendEdit a.uri (a.fix.lineEdit? document.text.toList a.line)
  | none => s

def fixDocument (s : Session) (fuel : Nat) (a : FixAllArgument) : Session :=
  match s.desk.document? a.uri with
  | some document =>
    let (edit, d) := s.desk.fixAll fuel document (.ofRule a.rule)
    (s.putDesk d).sendEdit a.uri edit
  | none => s

def toggle (s : Session) (fuel : Nat) : Bool × Session :=
  let enabled := !s.desk.enabled
  let s := s.putDesk (s.desk.perform fuel [.toggle])
  let text := if enabled then "mdguard linting enabled" else "mdguard linting disabled"
  (enabled, s.send (.message .info text))

/-- Asks the client to open a page, and says whether it did. -/
def openPage (s : Session) (uri : Url) : Bool × Session :=
  (s.pages.headD false, { s with pages := s.pages.tail }.send (.page uri))

def execute (s : Session) (fuel : Nat) (command : String) (arguments : List Json) :
    Except RequestError Json × Session :=
  match command with
  | "mdguard.fixLine" =>
    match argument LineFixArgument.ofJson? arguments with
    | .ok a => (.ok .null, s.fixLine a)
    | .error e => (.error e, s)
  | "mdguard.fixAll" =>
    match argument FixAllArgument.ofJson? arguments with
    | .ok a => (.ok .null, s.fixDocument fuel a)
    | .error e => (.error e, s)
  | "mdguard.toggleLinting" =>
    let (enabled, s) := s.toggle fuel
    (.ok (.bool enabled), s)
  | "mdguard.openRuleInformation" =>
    match argument url? arguments with
    | .ok uri =>
      let (opened, s) := s.openPage uri
      (.ok (.bool opened), s)
    | .error e => (.error e, s)
  | _ => (.error (.unknownCommand command), s)

/-- Answers a request; one about a document that is not open has no result. -/
def answer (s : Session) (fuel : Nat) : Request → Except RequestError Json × Session
  | .codeActions q =>
    match s.desk.document? q.uri with
    | none => (.ok .null, s)
    | some document =>
      let (actions, d) := codeActions fuel document q s.desk
      (.ok (.arr (actions.map CodeAction.toJson)), s.putDesk d)
  | .execute command arguments => s.execute fuel command arguments
  | .formatRange uri range =>
    match s.desk.document? uri with
    | none => (.ok .null, s)
    | some document =>
      let (edit, d) := s.desk.fixAll fuel document (.lines range.start.line range.finish.line)
      (.ok (.arr (edit.toList.map TextEdit.toJson)), s.putDesk d)

/-! ### Messages of the client -/

/-- The error of a call that comes at the wrong time. -/
def untimely : Phase → RequestError
  | .waiting => .notStarted
  | _ => .invalidRequest

/-- Whether a method is outside the protocol's set, where unknown methods go unanswered. -/
def isOptional (method : String) : Bool :=
  "$/".toList.isPrefixOf method.toList

/-- Takes a request; nothing is answered after the end. -/
def request (s : Session) (fuel : Nat) (method : String) (params : Option Json) :
    Option (Except RequestError Json) × Session :=
  if s.phase = .exited then (none, s)
  else
    match Service.of? method with
    | none => (if isOptional method then none else some (.error .unknownMethod), s)
    | some .exit => (none, { s with phase := .exited })
    | some .start =>
      if s.phase = .waiting then
        match params.bind startOptions? with
        | some o => (some (.ok welcome), s.start o)
        | none => (some (.error .malformedParams), s)
      else (some (.error .invalidRequest), s)
    | some service =>
      if s.phase ≠ .running then (some (.error (untimely s.phase)), s)
      else
        match service with
        | .shutDown =>
          (some (if params.isSome then .error .malformedParams else .ok .null),
            { s with phase := .shutDown })
        | .answer decode =>
          match params.bind decode with
          | some r =>
            let (result, s) := s.answer fuel r
            (some result, s)
          | none => (some (.error .malformedParams), s)
        | .refuse readable =>
          (some (.error (if params.any readable then .unknownMethod else .malformedParams)), s)
        | _ => (some (.error .invalidRequest), s)

/-- Takes note of something, and lets the tasks run. -/
def hear (s : Session) (fuel : Nat) (n : Notice) : Session :=
  let s := match n with
    | .started => (s.send .watch).send (.log .info "mdguard LSP server initialized!")
    | _ => s
  s.putDesk ((n.apply s.desk).perform fuel [])

/-- Takes a notice; one that cannot be read or comes at the wrong time is dropped. -/
def notify (s : Session) (fuel : Nat) (method : String) (params : Option Json) : Session :=
  match Service.of? method with
  | some .exit => { s with phase := .exited }
  | some .shutDown => if s.phase = .running then { s with phase := .shutDown } else s
  | some (.listen decode) =>
    match params.bind decode with
    | some n => if s.phase = .running then s.hear fuel n else s
    | none => s
  | _ => s

end Session

end Server

end LintDesk
