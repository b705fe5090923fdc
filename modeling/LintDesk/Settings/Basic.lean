import LintDesk.Config.Basic
import LintDesk.Document.Basic

/-!
Settings. Values come in layers: the user's, the workspace's and those of single folders. The
layer nearest to a document that has a value supplies it, and the answer says which layer that
was. A value of the wrong shape counts as absent.
-/

namespace LintDesk

inductive Scope where
  | default
  | user
  | workspace
  | folder
  deriving DecidableEq, Repr

namespace Scope

def name : Scope → String
  | default => "default"
  | user => "user"
  | workspace => "workspace"
  | folder => "folder"

def ofName? (s : String) : Option Scope :=
  [default, user, workspace, folder].find? (·.name == s)

/-- Whether values of this scope are shared with others, so that code they name needs consent. -/
def requiresTrust : Scope → Bool
  | workspace => true
  | folder => true
  | _ => false

end Scope

structure Scoped (α : Type) where
  value : α
  scope : Scope
  deriving Repr, DecidableEq

def Scoped.toJson (f : α → Json) (s : Scoped α) : Json :=
  .mkObj [("value", f s.value), ("scope", .str s.scope.name)]

inductive RunMode where
  | onType
  | onSave
  deriving DecidableEq, Repr

namespace RunMode

def name : RunMode → String
  | onType => "onType"
  | onSave => "onSave"

def ofName? : String → Option RunMode
  | "onType" => some onType
  | "onSave" => some onSave
  | _ => none

def ofJson? : Json → Option RunMode
  | .str s => ofName? s
  | .obj [(key, .null)] => ofName? key
  | _ => none

end RunMode

/-- Whether diagnostics near the cursor are held back. -/
inductive FocusMode where
  | disabled
  /-- Hold back what is at most this many lines from the cursor. -/
  | window (lines : Nat)
  deriving DecidableEq, Repr

namespace FocusMode

/-- Decodes a mode; anything but `false`, `null` and a number means the cursor's line only. -/
def ofJson : Json → FocusMode
  | .bool false => disabled
  | .null => disabled
  | v => window (v.nat32?.getD 0)

def toJson : FocusMode → Json
  | disabled => .str "disabled"
  | window lines => .nat lines

def isEnabled : FocusMode → Bool
  | disabled => false
  | window _ => true

end FocusMode

inductive IgnoreSetting where
  | globs (patterns : List String)
  /-- The path of an ignore file, relative to the workspace folder. -/
  | file (name : String)
  deriving DecidableEq, Repr

namespace IgnoreSetting

def ofJson? : Json → Option IgnoreSetting
  | .str s => some (file s)
  | v => v.strings?.map globs

def toJson : IgnoreSetting → Json
  | globs patterns => .strings patterns
  | file name => .str name

end IgnoreSetting

def defaultLanguages : List String := ["markdown"]

/-- The files of a workspace that are linted by default; a `!` excludes. -/
def defaultWorkspaceGlobs : List String :=
  ["**/*.\x7bmd,mkd,mdwn,mdown,markdown,markdn,mdtxt,mdtext,workbook\x7d", "!**/*.code-search",
    "!**/bower_components", "!**/node_modules", "!**/.git", "!**/vendor"]

structure Settings where
  config : Option (Scoped RuleConfig) := none
  customRules : Scoped (List String) := ⟨[], .default⟩
  focusMode : FocusMode := .disabled
  run : RunMode := .onType
  ignoring : IgnoreSetting := .globs []
  languages : List String := defaultLanguages
  workspaceGlobs : List String := defaultWorkspaceGlobs
  deriving Repr

def Settings.toJson (s : Settings) : Json :=
  .mkObj [("config", .orNull (Scoped.toJson .obj) s.config),
    ("customRules", s.customRules.toJson .strings), ("focusMode", s.focusMode.toJson),
    ("focusEnabled", .bool s.focusMode.isEnabled), ("run", .str s.run.name),
    ("ignore", s.ignoring.toJson), ("languages", .strings s.languages),
    ("lintWorkspaceGlobs", .strings s.workspaceGlobs)]

/-- One layer of settings: section to value. -/
abbrev SettingsLayer := Dict Json

structure SettingsLayers where
  user : SettingsLayer := []
  workspace : SettingsLayer := []
  folders : List (Url × SettingsLayer) := []
  deriving Repr

namespace SettingsLayers

/-- Reads a payload. One with a `user`, `workspace` or `folders` key has its layers spelled out;
any other object is the user's layer. Folders whose URL or layer is malformed are left out. -/
def ofJson (payload : Json) : SettingsLayers :=
  match payload with
  | .obj fields =>
    if ["user", "workspace", "folders"].any (Dict.has · fields) then
      let layer (name : String) : SettingsLayer :=
        ((Dict.find? name fields).bind Json.fields?).getD []
      { user := layer "user", workspace := layer "workspace"
        folders := (layer "folders").filterMap fun (uri, values) => do
          let uri ← Url.parse? uri
          let values ← values.fields?
          return (uri, values) }
    else { user := fields }
  | _ => {}

/-- Stores a value in the user's or the workspace's layer; other scopes take none. -/
def set (s : SettingsLayers) (scope : Scope) (key : String) (value : Json) : SettingsLayers :=
  match scope with
  | .user => { s with user := Dict.insert key value s.user }
  | .workspace => { s with workspace := Dict.insert key value s.workspace }
  | _ => s

/-- Stores a value in the layer of a folder, which is added if it is new. -/
def setFolder (s : SettingsLayers) (folder : Url) (key : String) (value : Json) :
    SettingsLayers :=
  if s.folders.any (·.1 == folder) then
    let rec update : List (Url × SettingsLayer) → List (Url × SettingsLayer)
      | [] => []
      | (uri, layer) :: rest =>
        if uri == folder then (uri, Dict.insert key value layer) :: rest
        else (uri, layer) :: update rest
    { s with folders := update s.folders }
  else { s with folders := s.folders ++ [(folder, [(key, value)])] }

/-- The layer of the innermost folder that contains a resource. -/
def folderLayer? (s : SettingsLayers) (resource : Url) : Option SettingsLayer :=
  let containing := s.folders.filter fun (folder, _) =>
    isBelow (trimSlashes folder.text) resource.text
  (lastMaxBy? (fun (folder, _) => folder.text.utf8ByteSize) containing).map (·.2)

/-- The value of a section for a resource, from the nearest layer that has one. -/
def get? (s : SettingsLayers) (key : String) (resource : Option Url) : Option (Scoped Json) :=
  match (resource.bind s.folderLayer?).bind (Dict.find? key) with
  | some value => some ⟨value, .folder⟩
  | none =>
    match Dict.find? key s.workspace with
    | some value => some ⟨value, .workspace⟩
    | none => (Dict.find? key s.user).map (⟨·, .user⟩)

/-- A section decoded, with the scope that supplied it; nothing if the value is malformed. -/
def decoded? (s : SettingsLayers) (key : String) (resource : Option Url)
    (decode : Json → Option α) : Option (Scoped α) :=
  (s.get? key resource).bind fun found => (decode found.value).map (⟨·, found.scope⟩)

def settingsFor (s : SettingsLayers) (resource : Option Url) : Settings :=
  let base : Settings := {}
  let value (key : String) {α : Type} (decode : Json → Option α) (default : α) : α :=
    ((s.decoded? key resource decode).map (·.value)).getD default
  { config := s.decoded? "config" resource Json.fields?
    customRules := (s.decoded? "customRules" resource Json.strings?).getD base.customRules
    focusMode := value "focusMode" (some ∘ FocusMode.ofJson) base.focusMode
    run := value "run" RunMode.ofJson? base.run
    ignoring := value "ignore" IgnoreSetting.ofJson? base.ignoring
    languages := value "languages" Json.strings? base.languages
    workspaceGlobs := value "lintWorkspaceGlobs" Json.strings? base.workspaceGlobs }

end SettingsLayers

end LintDesk
