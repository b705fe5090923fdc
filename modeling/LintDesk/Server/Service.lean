import LintDesk.Server.Params

/-!
The methods a client may call. Requests of the protocol that are not offered are refused, but
their parameters are looked at first, as for those that are.
-/

namespace LintDesk.Server

inductive Service where
  | start
  | shutDown
  | exit
  | answer (decode : Json → Option Request)
  | listen (decode : Json → Option Notice)
  /-- A request that is not offered. -/
  | refuse (readable : Json → Bool)
  /-- A notice without effect. -/
  | disregard

/-- A field that a method needs: its name, and whether a value can be read. -/
abbrev Need := String × (Json → Bool)

def need (key : String) (decode : Json → Option α) : Need :=
  (key, fun v => (decode v).isSome)

def needDocument : Need := need "textDocument" documentId?

def needPosition : Need := need "position" Position.ofJson?

def needRange : Need := need "range" Range.ofJson?

def hasFields (needs : List Need) (v : Json) : Bool :=
  match v.fields? with
  | some fields => needs.all fun n => (Dict.find? n.1 fields).any n.2
  | none => false

/-- A symbol that was reported before. -/
def needItem : Need :=
  ("item", hasFields [need "name" Json.string?, need "kind" int32?, need "uri" url?, needRange,
    need "selectionRange" Range.ofJson?])

def number? : Json → Option Unit
  | .num _ => some ()
  | _ => none

/-- The requests that are not offered, with what they need. -/
def refused : List (String × List Need) :=
  let atPlace := ["declaration", "definition", "typeDefinition", "implementation", "hover",
    "prepareCallHierarchy", "prepareTypeHierarchy", "documentHighlight", "moniker", "completion",
    "signatureHelp", "prepareRename", "linkedEditingRange"]
  let ofDocument := ["documentLink", "codeLens", "foldingRange", "documentSymbol",
    "semanticTokens/full", "documentColor", "diagnostic"]
  let ofItem := ["callHierarchy/incomingCalls", "callHierarchy/outgoingCalls",
    "typeHierarchy/supertypes", "typeHierarchy/subtypes"]
  let ofFiles := ["willCreateFiles", "willRenameFiles", "willDeleteFiles"]
  let options := need "options" formattingOptions?
  atPlace.map (fun m => ("textDocument/" ++ m, [needDocument, needPosition])) ++
  ofDocument.map (fun m => ("textDocument/" ++ m, [needDocument])) ++
  ofItem.map (fun m => (m, [needItem])) ++
  ofFiles.map (fun m => ("workspace/" ++ m, [need "files" Json.items?])) ++
  [("textDocument/references", [needDocument, needPosition,
      ("context", hasFields [need "includeDeclaration" Json.bool?])]),
   ("textDocument/willSaveWaitUntil", [needDocument, need "reason" int32?]),
   ("textDocument/semanticTokens/full/delta",
      [needDocument, need "previousResultId" Json.string?]),
   ("textDocument/semanticTokens/range", [needDocument, needRange]),
   ("textDocument/inlayHint", [needDocument, needRange]),
   ("textDocument/inlineValue", [needDocument, needRange,
      ("context", hasFields [need "frameId" int32?, need "stoppedLocation" Range.ofJson?])]),
   ("textDocument/selectionRange", [needDocument, need "positions" (listOf? Position.ofJson?)]),
   ("textDocument/colorPresentation", [needDocument, needRange,
      ("color", hasFields (["red", "green", "blue", "alpha"].map (need · number?)))]),
   ("textDocument/formatting", [needDocument, options]),
   ("textDocument/onTypeFormatting",
      [needDocument, needPosition, need "ch" Json.string?, options]),
   ("textDocument/rename", [needDocument, needPosition, need "newName" Json.string?]),
   ("workspace/symbol", [need "query" Json.string?]),
   ("workspace/diagnostic", [need "previousResultIds" Json.items?]),
   ("workspaceSymbol/resolve", [need "name" Json.string?, need "kind" int32?]),
   ("codeLens/resolve", [needRange]),
   ("documentLink/resolve", [needRange]),
   ("inlayHint/resolve", [needPosition]),
   ("completionItem/resolve", [need "label" Json.string?]),
   ("codeAction/resolve", [need "title" Json.string?])]

/-- The notices without effect. -/
def disregarded : List String :=
  ["textDocument/willSave", "workspace/didChangeWorkspaceFolders", "workspace/didCreateFiles",
   "workspace/didRenameFiles", "workspace/didDeleteFiles"]

def Service.of? : String → Option Service
  | "initialize" => some .start
  | "shutdown" => some .shutDown
  | "exit" => some .exit
  | "initialized" => some (.listen started?)
  | "textDocument/didOpen" => some (.listen opened?)
  | "textDocument/didChange" => some (.listen changed?)
  | "textDocument/didSave" => some (.listen saved?)
  | "textDocument/didClose" => some (.listen closed?)
  | "workspace/didChangeConfiguration" => some (.listen configured?)
  | "workspace/didChangeWatchedFiles" => some (.listen filesChanged?)
  | "mdguard/didChangeActiveSelection" => some (.listen cursorMoved?)
  | "textDocument/codeAction" => some (.answer codeActions?)
  | "workspace/executeCommand" => some (.answer execute?)
  | "textDocument/rangeFormatting" => some (.answer formatRange?)
  | method =>
    match refused.lookup method with
    | some needs => some (.refuse (hasFields needs))
    | none => if disregarded.contains method then some .disregard else none

end LintDesk.Server
