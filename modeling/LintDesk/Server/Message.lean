import LintDesk.Document.Basic
import LintDesk.Server.Publisher

/-!
What a client and the server say to each other: requests, notices, answers, and the messages that
the server sends of its own accord.
-/

namespace LintDesk.Server

/-- What a client says about itself when it starts the server. -/
structure StartOptions where
  folders : Workspace
  settings : Option Json
  deriving Repr

structure ActionQuery where
  uri : Url
  range : Range
  diagnostics : List ClientDiagnostic
  /-- The kinds the client wants; all if there is none. -/
  only : Option (List String)
  deriving Repr

inductive Request where
  | codeActions (q : ActionQuery)
  | execute (command : String) (arguments : List Json)
  | formatRange (uri : Url) (range : Range)
  deriving Repr

inductive Notice where
  | started
  | opened (d : Document)
  /-- A document has new text: the last of those given. -/
  | changed (uri : Url) (version : Int) (texts : List String)
  | saved (uri : Url) (text : Option String)
  | closed (uri : Url)
  | configured (settings : Json)
  | filesChanged (uris : List Url)
  | cursorMoved (uri : Url) (line : Nat)
  deriving Repr

inductive RequestError where
  | notStarted
  | invalidRequest
  | unknownMethod
  | malformedParams
  | unknownCommand (name : String)
  | missingArgument
  deriving DecidableEq, Repr

namespace RequestError

def code : RequestError → Int
  | notStarted => -32002
  | invalidRequest => -32600
  | unknownMethod => -32601
  | malformedParams => -32602
  | unknownCommand _ => -32602
  | missingArgument => -32602

def message : RequestError → String
  | notStarted => "Server not initialized"
  | invalidRequest => "Invalid request"
  | unknownMethod => "Method not found"
  | malformedParams => "Invalid params"
  | unknownCommand name => "Unknown command: " ++ name
  | missingArgument => "Missing command argument"

end RequestError

inductive Level where
  | error
  | warning
  | info
  | log
  deriving DecidableEq, Repr

def Level.toNat : Level → Nat
  | error => 1
  | warning => 2
  | info => 3
  | log => 4

inductive Outgoing where
  | publication (p : Publication)
  /-- A line for the client's log. -/
  | log (level : Level) (text : String)
  /-- A message for the user. -/
  | message (level : Level) (text : String)
  /-- Whether custom rules may run. -/
  | question (locations : List String)
  /-- An edit to be applied. -/
  | edit (uri : Url) (e : TextEdit)
  /-- A page to be opened. -/
  | page (uri : Url)
  /-- Files to be watched. -/
  | watch
  deriving Repr

def choiceTitles : List (String × TrustChoice) :=
  [("Allow", .allowOnce), ("Always allow", .alwaysAllow), ("Block", .block)]

def watchedGlobs : List String :=
  ["**/.markdownlint\x7b,-cli2\x7d.\x7bjson,jsonc,yaml,yml\x7d", "**/.markdownlintignore"]

def workspaceEdit (uri : Url) (e : TextEdit) : Json :=
  .mkObj [("changes", .mkObj [(uri.text, .arr [e.toJson])])]

namespace Outgoing

def method : Outgoing → String
  | publication _ => "textDocument/publishDiagnostics"
  | log _ _ => "window/logMessage"
  | message _ _ => "window/showMessage"
  | question _ => "window/showMessageRequest"
  | edit _ _ => "workspace/applyEdit"
  | page _ => "window/showDocument"
  | watch => "client/registerCapability"

def leveled (level : Level) (text : String) : List (String × Json) :=
  [("type", .nat level.toNat), ("message", .str text)]

def params : Outgoing → Json
  | publication p => p.toJson
  | log level text => .mkObj (leveled level text)
  | message level text => .mkObj (leveled level text)
  | question locations =>
    let text := "This workspace includes custom rules for mdguard: " ++
      String.intercalate ", " locations ++ ". Allow them to run?"
    let actions := choiceTitles.map fun c => Json.mkObj [("title", .str c.1)]
    .mkObj (("actions", .arr actions) :: leveled .warning text)
  | edit uri e => .mkObj [("edit", workspaceEdit uri e)]
  | page uri =>
    .mkObj [("uri", .str uri.text), ("external", .bool true), ("takeFocus", .bool true)]
  | watch =>
    let watchers := watchedGlobs.map fun g => Json.mkObj [("globPattern", .str g)]
    .mkObj [("registrations", .arr [.mkObj [("id", .str "mdguard-watched-files"),
      ("method", .str "workspace/didChangeWatchedFiles"),
      ("registerOptions", .mkObj [("watchers", .arr watchers)])]])]

end Outgoing

/-! ### Answers of the client -/

/-- The user's choice in a reply; a reply that cannot be read counts as a dismissed question. -/
def choiceOfReply? (reply : Option Json) : Option TrustChoice := do
  let fields ← (← reply).fields?
  let title ← Json.required? fields "title" Json.string?
  choiceTitles.lookup title

/-- Whether a reply says that a page was opened. -/
def openedOfReply (reply : Option Json) : Bool :=
  (do
    let r ← (← reply).record? ["success"]
    Json.required? r "success" Json.bool?).getD false

end LintDesk.Server
