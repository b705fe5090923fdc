import LintDesk.Config.Entry
import LintDesk.Config.Extends
import LintDesk.Document.Basic
import LintDesk.Settings.Basic

/-!
Finding the configuration of a document. The directories from the document's own up to its
workspace folder are searched in turn, and the first with a usable file supplies it; without one
the settings do. Each directory's result is remembered. A lookup is a value that waits for one
file call at a time, so that several can be under way over one resolver.
-/

namespace LintDesk

/-- What lookups share. -/
structure Resolver where
  cache : ConfigCache := {}
  home : Option Path := none
  /-- The serial of the next entry. -/
  serial : Nat := 0
  log : Journal := {}
  deriving Repr

structure Query where
  document : Document
  folder : Option Folder
  settings : Settings
  deriving Repr

/-- The directories to search, from `dir` upwards: up to the boundary, and never out of it. -/
def searchPath (boundary : Option Path) : (fuel : Nat) → (dir : Path) → List Path
  | 0, dir => [dir]
  | fuel + 1, dir =>
    dir ::
      if boundary.any (·.same dir) then []
      else match dir.parent? with
        | none => []
        | some parent =>
          if parent.same dir || boundary.any (fun b => !parent.startsWith b) then []
          else searchPath boundary fuel parent

namespace Query

/-- The directories in which a configuration of the document may lie. -/
def directories (q : Query) : List Path :=
  match q.document.path?.bind Path.parent? with
  | none => []
  | some start => searchPath (q.folder.bind Folder.path?) start.components.length start

def key (q : Query) : String :=
  q.document.uri.text

/-- Where a configuration in the settings counts as coming from. -/
def originOf : Scope → Origin
  | .workspace => .workspaceSetting
  | .folder => .workspaceSetting
  | .user => .userSetting
  | .default => .userSetting

/-- The chain of a configuration in the settings. What the user set is relative to the home
directory, what the workspace sets to its folder. -/
def settingsChain (q : Query) (home : Option Path) (config : Scoped RuleConfig) : Chain :=
  let folder := q.folder.bind Folder.path?
  let fromHome := !config.scope.requiresTrust || !q.folder.any Folder.isFile
  let base := if fromHome then home.or folder else folder.or home
  { places := { home, folder }
    base := base.getD ⟨""⟩
    visited := []
    layers := [config.value] }

end Query

/-- The search of one directory: what is in it, which names are left to try, and which directories
come after it. -/
structure Probe where
  dir : Path
  entries : List DirEntry
  names : List String
  above : List Path
  deriving Repr

/-- A lookup between two file calls. -/
inductive Lookup where
  /-- A directory is to be listed. -/
  | listing (dir : Path) (above : List Path)
  /-- A link is to be followed. -/
  | following (probe : Probe) (path : Path)
  /-- A file is being loaded. -/
  | loading (probe : Probe) (path : Path) (load : Loading)
  /-- The chain of the settings is being read. -/
  | settings (origin : Origin) (read : ChainRead)
  | done (entry : ResolvedConfig)
  deriving Repr

namespace Lookup

def call? : Lookup → Option FileCall
  | listing dir _ => some (.list dir)
  | following _ path => some (.stat path)
  | loading _ _ load => load.call?
  | settings _ (.waiting _ path) => some (.read path)
  | _ => none

/-- A new entry over the default. -/
def entry (config : RuleConfig) (source : Origin) (r : Resolver) : ResolvedConfig × Resolver :=
  (⟨RuleConfig.merge .default config, some source, r.serial⟩, { r with serial := r.serial + 1 })

def finish (q : Query) (config : RuleConfig) (source : Origin) (r : Resolver) : Lookup × Resolver :=
  let (e, r) := entry config source r
  let (e, cache) := r.cache.putDocument q.key e
  (done e, { r with cache })

def afterChain (q : Query) (origin : Origin) (read : ChainRead) (r : Resolver) :
    Lookup × Resolver :=
  match read with
  | .done config => finish q config origin r
  | .waiting .. => (settings origin read, r)

/-- What the settings say, where no directory has a configuration. -/
def fallBack (q : Query) (r : Resolver) : Lookup × Resolver :=
  match r.cache.document? q.key with
  | some e => (done e, r)
  | none =>
    match q.settings.config with
    | none => finish q [] .default r
    | some config =>
      let (read, log) := ChainRead.start (q.settingsChain r.home config) r.log
      afterChain q (Query.originOf config.scope) read { r with log }

/-- Goes through directories until one has to be listed. -/
def visit (q : Query) : List Path → Resolver → Lookup × Resolver
  | [], r => fallBack q r
  | dir :: above, r =>
    match r.cache.directory? dir with
    | some (some e) => (done e, r)
    | some none => visit q above r
    | none => (listing dir above, r)

def conclude (q : Query) (dir : Path) (above : List Path) (found : Option ResolvedConfig)
    (r : Resolver) : Lookup × Resolver :=
  match r.cache.putDirectory dir found with
  | (some e, cache) => (done e, { r with cache })
  | (none, cache) => visit q above { r with cache }

/-- Tries names until one of them is a file or may lead to one. -/
def tryNames (q : Query) (dir : Path) (entries : List DirEntry) (above : List Path) :
    List String → Resolver → Lookup × Resolver
  | [], r => conclude q dir above none r
  | name :: names, r =>
    let path := dir.join ⟨name⟩
    match entries.find? (·.name == name) with
    | some ⟨_, .file⟩ => (loading ⟨dir, entries, names, above⟩ path (.opening path), r)
    | some ⟨_, .link⟩ => (following ⟨dir, entries, names, above⟩ path, r)
    | _ => tryNames q dir entries above names r

/-- Goes on after a file was loaded, or not. -/
def afterLoading (q : Query) (p : Probe) (path : Path) (load : Loading) (r : Resolver) :
    Lookup × Resolver :=
  match load.result? with
  | none => (loading p path load, r)
  | some (.ok config) =>
    let (e, r) := entry config (.file path) r
    conclude q p.dir p.above (some e) r
  | some (.error fault) =>
    let message := "Ignoring configuration '" ++ path.text ++ "': " ++ fault.message
    tryNames q p.dir p.entries p.above p.names { r with log := r.log.error message }

/-- Starts a lookup; without a file layer only the settings count. -/
def start (q : Query) (layer : FileLayer) (r : Resolver) : Lookup × Resolver :=
  visit q (if layer.isAvailable then q.directories else []) r

/-- Takes the answer to the awaited call and goes on to the next one. -/
def resume (q : Query) (layer : FileLayer) (r : Resolver) : Lookup → Lookup × Resolver
  | listing dir above =>
    match layer.list dir with
    | .ok entries => tryNames q dir entries above configFileNames r
    | .error _ => conclude q dir above none r
  | following p path =>
    match layer.stat path with
    | .ok .file => (loading p path (.opening path), r)
    | _ => tryNames q p.dir p.entries p.above p.names r
  | loading p path load =>
    let (load, log) := load.resume r.home layer r.log
    afterLoading q p path load { r with log }
  | settings origin (.waiting chain path) =>
    let (read, log) := ChainRead.receive chain path (layer.read path) r.log
    afterChain q origin read { r with log }
  | l => (l, r)

end Lookup

end LintDesk
