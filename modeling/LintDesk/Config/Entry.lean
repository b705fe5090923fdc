import LintDesk.Config.Basic
import LintDesk.Path

/-!
Resolved configurations and the cache that remembers them.
-/

namespace LintDesk

inductive Origin where
  | file (path : Path)
  | workspaceSetting
  | userSetting
  | default
  deriving DecidableEq, Repr

def Origin.toJson : Origin → Json
  | file path => .mkObj [("file", .str path.text)]
  | workspaceSetting => .str "workspaceSetting"
  | userSetting => .str "userSetting"
  | default => .str "default"

/-- A resolved configuration. Documents that share one have the same `serial`. -/
structure ResolvedConfig where
  config : RuleConfig
  source : Option Origin
  serial : Nat
  deriving Repr

def ResolvedConfig.toFields (e : ResolvedConfig) : List (String × Json) :=
  [("config", .obj e.config), ("source", .orNull Origin.toJson e.source)]

/-- What was resolved since the cache was last cleared: for directories, also that they have no
configuration; for documents, what the settings said. -/
structure ConfigCache where
  directories : List (List Component × Option ResolvedConfig) := []
  documents : List (String × ResolvedConfig) := []
  deriving Repr

namespace ConfigCache

def directory? (c : ConfigCache) (dir : Path) : Option (Option ResolvedConfig) :=
  c.directories.lookup dir.components

/-- Stores what a directory has, unless something is stored already; says what then is. -/
def putDirectory (c : ConfigCache) (dir : Path) (entry : Option ResolvedConfig) :
    Option ResolvedConfig × ConfigCache :=
  match c.directory? dir with
  | some stored => (stored, c)
  | none => (entry, { c with directories := (dir.components, entry) :: c.directories })

def document? (c : ConfigCache) (key : String) : Option ResolvedConfig :=
  c.documents.lookup key

/-- Stores the entry of a document, unless one is stored already; says which then is. -/
def putDocument (c : ConfigCache) (key : String) (entry : ResolvedConfig) :
    ResolvedConfig × ConfigCache :=
  match c.document? key with
  | some stored => (stored, c)
  | none => (entry, { c with documents := (key, entry) :: c.documents })

def invalidate (_ : ConfigCache) : ConfigCache := {}

def isEmpty (c : ConfigCache) : Bool :=
  c.directories.isEmpty && c.documents.isEmpty

end ConfigCache

end LintDesk
