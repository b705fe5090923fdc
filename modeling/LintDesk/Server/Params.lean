import LintDesk.Server.Message

/-!
Reading the parameters of messages. A message whose parameters cannot be read is not carried out.
-/

namespace LintDesk.Server

def int32? : Json → Option Int := Json.int32?

def nat32? : Json → Option Nat := Json.nat32?

def url? : Json → Option Url := ClientDiagnostic.url?

/-- An array of values that are all readable. -/
def listOf? (decode : Json → Option α) (v : Json) : Option (List α) :=
  v.items?.bind (·.mapM decode)

def documentId? (v : Json) : Option Url := do
  Json.required? (← v.record? ["uri"]) "uri" url?

def documentItem? (v : Json) : Option Document := do
  let r ← v.record? ["uri", "languageId", "version", "text"]
  let uri ← Json.required? r "uri" url?
  let language ← Json.required? r "languageId" Json.string?
  let version ← Json.required? r "version" int32?
  let text ← Json.required? r "text" Json.string?
  return { uri, text, language, version }

def contentChange? (v : Json) : Option String := do
  let r ← v.record? ["range", "rangeLength", "text"]
  let _ ← Json.optional? r "range" Range.ofJson?
  let _ ← Json.optional? r "rangeLength" nat32?
  Json.required? r "text" Json.string?

def versionedId? (v : Json) : Option (Url × Int) := do
  let r ← v.record? ["uri", "version"]
  return (← Json.required? r "uri" url?, ← Json.required? r "version" int32?)

def folder? (v : Json) : Option Folder := do
  let r ← v.record? ["uri", "name"]
  return ⟨← Json.required? r "uri" url?, ← Json.required? r "name" Json.string?⟩

def fileEvent? (v : Json) : Option Url := do
  let r ← v.record? ["uri", "type"]
  let uri ← Json.required? r "uri" url?
  let _ ← Json.required? r "type" int32?
  return uri

/-- Parameters that may carry tokens for progress reports; they are always an object. -/
def withTokens? (tokens : List String) (v : Json) : Option (Dict Json) := do
  let fields ← v.fields?
  if tokens.all fun t => (Json.optional? fields t ClientDiagnostic.code?).isSome then fields
  else none

/-- How much a client wants to be told about the server's work. -/
def trace? : Json → Option Unit
  | .str "off" => some ()
  | .str "messages" => some ()
  | .str "verbose" => some ()
  | _ => none

def clientInfo? (v : Json) : Option Unit := do
  let r ← v.record? ["name", "version"]
  let _ ← Json.required? r "name" Json.string?
  let _ ← Json.optional? r "version" Json.string?

def anyObject? (v : Json) : Option Unit := v.fields?.map fun _ => ()

/-- What a client can do; none of it is used. -/
def capabilities? (v : Json) : Option Unit := do
  let r ← v.record? ["workspace", "textDocument", "window", "general"]
  let _ ← Json.optional? r "workspace" anyObject?
  let _ ← Json.optional? r "textDocument" anyObject?
  let _ ← Json.optional? r "window" anyObject?
  let _ ← Json.optional? r "general" anyObject?

/-- The parameters that start the server. Without a list of folders the root is the only one. -/
def startOptions? (v : Json) : Option StartOptions := do
  let r ← v.record? ["processId", "rootPath", "rootUri", "initializationOptions", "capabilities",
    "trace", "workspaceFolders", "clientInfo", "locale"]
  let _ ← Json.optional? r "processId" nat32?
  let _ ← Json.optional? r "rootPath" Json.string?
  let root ← Json.optional? r "rootUri" url?
  let settings ← Json.optional? r "initializationOptions" some
  let _ ← Json.required? r "capabilities" capabilities?
  let _ ← Json.optional? r "trace" trace?
  let folders ← Json.optional? r "workspaceFolders" (listOf? folder?)
  let _ ← Json.optional? r "clientInfo" clientInfo?
  let _ ← Json.optional? r "locale" Json.string?
  return { folders := folders.getD (root.toList.map (⟨·, ""⟩)), settings }

/-! ### Notices -/

def opened? (v : Json) : Option Notice := do
  let r ← v.record? ["textDocument"]
  return .opened (← Json.required? r "textDocument" documentItem?)

def changed? (v : Json) : Option Notice := do
  let r ← v.record? ["textDocument", "contentChanges"]
  let (uri, version) ← Json.required? r "textDocument" versionedId?
  return .changed uri version (← Json.required? r "contentChanges" (listOf? contentChange?))

def saved? (v : Json) : Option Notice := do
  let r ← v.record? ["textDocument", "text"]
  let uri ← Json.required? r "textDocument" documentId?
  return .saved uri (← Json.optional? r "text" Json.string?)

def closed? (v : Json) : Option Notice := do
  let r ← v.record? ["textDocument"]
  return .closed (← Json.required? r "textDocument" documentId?)

def configured? (v : Json) : Option Notice := do
  let r ← v.record? ["settings"]
  return .configured (← Json.required? r "settings" some)

def filesChanged? (v : Json) : Option Notice := do
  let r ← v.record? ["changes"]
  return .filesChanged (← Json.required? r "changes" (listOf? fileEvent?))

def cursorMoved? (v : Json) : Option Notice := do
  let r ← v.record? ["uri", "line"]
  return .cursorMoved (← Json.required? r "uri" url?) (← Json.required? r "line" nat32?)

def started? (v : Json) : Option Notice :=
  (v.record? []).map fun _ => .started

/-! ### Requests -/

def codeActions? (v : Json) : Option Request := do
  let r ← withTokens? ["workDoneToken", "partialResultToken"] v
  let uri ← Json.required? r "textDocument" documentId?
  let range ← Json.required? r "range" Range.ofJson?
  let context ← Json.required? r "context" (·.record? ["diagnostics", "only", "triggerKind"])
  let diagnostics ← Json.required? context "diagnostics" (listOf? ClientDiagnostic.ofJson?)
  let only ← Json.optional? context "only" Json.strings?
  let _ ← Json.optional? context "triggerKind" int32?
  return .codeActions { uri, range, diagnostics, only }

def execute? (v : Json) : Option Request := do
  let r ← withTokens? ["workDoneToken"] v
  let command ← Json.required? r "command" Json.string?
  return .execute command (← Json.withDefault? r "arguments" [] Json.items?)

/-- A property of a formatting style that is not known. -/
def styleProperty? : Json → Option Unit
  | .bool _ => some ()
  | v => (ClientDiagnostic.code? v).map fun _ => ()

/-- A formatting style; none of it is used. -/
def formattingOptions? (v : Json) : Option Unit := do
  let r ← v.fields?
  let flags := ["trimTrailingWhitespace", "insertFinalNewline", "trimFinalNewlines"]
  let _ ← Json.required? r "tabSize" nat32?
  let _ ← Json.required? r "insertSpaces" Json.bool?
  let _ ← flags.mapM fun k => Json.optional? r k Json.bool?
  let others := r.filter fun f => !("tabSize" :: "insertSpaces" :: flags).contains f.1
  let _ ← others.mapM fun f => styleProperty? f.2

def formatRange? (v : Json) : Option Request := do
  let r ← withTokens? ["workDoneToken"] v
  let uri ← Json.required? r "textDocument" documentId?
  let range ← Json.required? r "range" Range.ofJson?
  let _ ← Json.required? r "options" formattingOptions?
  return .formatRange uri range

/-! ### Commands -/

/-- The line a fix is for, and the fix. -/
structure LineFixArgument where
  uri : Url
  line : Nat
  fix : Fix
  deriving Repr

def LineFixArgument.ofJson? (v : Json) : Option LineFixArgument := do
  let r ← v.record? ["uri", "line", "fixInfo"]
  let uri ← Json.required? r "uri" url?
  let line ← Json.required? r "line" Json.word?
  let fix ← Json.required? r "fixInfo" Fix.ofJson?
  return { uri, line, fix }

/-- The document to be fixed, and the rule if only one is meant. -/
structure FixAllArgument where
  uri : Url
  rule : Option String
  deriving Repr

def FixAllArgument.ofJson? (v : Json) : Option FixAllArgument := do
  let r ← v.record? ["uri", "rule"]
  let uri ← Json.required? r "uri" url?
  return { uri, rule := ← Json.optional? r "rule" Json.string? }

end LintDesk.Server
