import LintDesk.Config.Parse
import LintDesk.Files.Layer
import LintDesk.Journal

/-!
Configurations that build on others. The chain of a configuration is read file by file; it ends
where no other file is named, and at the first file that was read before or cannot be used.
Settings nearer to the start of the chain win.
-/

namespace LintDesk

/-- Puts `other` for every occurrence of `mark`, from the left; `mark` is not empty. -/
def replaceAll (mark other : List Char) (fuel : Nat) (s : List Char) : List Char :=
  match fuel, s with
  | 0, s => s
  | _, [] => []
  | fuel + 1, c :: rest =>
    if mark.isPrefixOf (c :: rest) then
      other ++ replaceAll mark other fuel ((c :: rest).drop mark.length)
    else c :: replaceAll mark other fuel rest

/-- The directories that short forms in paths stand for. -/
structure Places where
  home : Option Path := none
  folder : Option Path := none
  deriving Repr

namespace Places

/-- Puts a directory in place of a variable. -/
def substitute (name : String) (dir : Path) (s : List Char) : List Char :=
  replaceAll ("$\x7b" ++ name ++ "\x7d").toList dir.text.toList (s.length + 1) s

def expand (p : Places) (value : String) : Path :=
  let s := value.toList
  let s := match p.home with
    | some home =>
      let s := match s with
        | ['~'] => home.text.toList
        | '~' :: '/' :: rest => home.text.toList ++ '/' :: rest
        | _ => s
      substitute "userHome" home s
    | none => s
  let s := match p.folder with
    | some folder => substitute "workspaceFolder" folder s
    | none => s
  ⟨String.ofList s⟩

end Places

/-- A chain of configurations as far as it was read, the last one first. -/
structure Chain where
  places : Places
  /-- The directory that the next path is relative to. -/
  base : Path
  visited : List Path
  layers : List RuleConfig
  deriving Repr

inductive Chain.Next where
  | finished
  | circular (path : Path)
  | read (path : Path)
  deriving DecidableEq, Repr

namespace Chain

def target? (c : Chain) : Option Path :=
  match c.layers.head?.bind (Dict.find? RuleConfig.extendsKey) with
  | some (.str target) => some (c.base.join (c.places.expand target)).normalize
  | _ => none

def next (c : Chain) : Next :=
  match c.target? with
  | none => .finished
  | some path => if c.visited.any (·.same path) then .circular path else .read path

def extend (c : Chain) (path : Path) (config : RuleConfig) : Chain :=
  { c with
    base := path.parent?.getD ⟨""⟩
    visited := path :: c.visited
    layers := config :: c.layers }

def config (c : Chain) : RuleConfig :=
  Dict.erase RuleConfig.extendsKey (c.layers.foldl RuleConfig.merge [])

end Chain

/-- A chain that is being read: finished, or waiting for the text of a file. -/
inductive ChainRead where
  | waiting (chain : Chain) (path : Path)
  | done (config : RuleConfig)
  deriving Repr

namespace ChainRead

/-- Goes on with a chain until a file is needed. -/
def start (chain : Chain) (log : Journal) : ChainRead × Journal :=
  match chain.next with
  | .finished => (.done chain.config, log)
  | .circular path =>
    (.done chain.config, log.error ("Ignoring circular extends of '" ++ path.text ++ "'"))
  | .read path => (.waiting chain path, log)

/-- Takes the text of the awaited file, or the reason why there is none. -/
def receive (chain : Chain) (path : Path) (text : Except Fault String) (log : Journal) :
    ChainRead × Journal :=
  match text.bind (RuleConfig.parse path) with
  | .ok config => start (chain.extend path config) log
  | .error f =>
    (.done chain.config, log.error ("Ignoring extends '" ++ path.text ++ "': " ++ f.message))

end ChainRead

/-- A configuration file that is being loaded together with its chain. -/
inductive Loading where
  | opening (path : Path)
  | extending (read : ChainRead)
  | failed (fault : Fault)
  deriving Repr

namespace Loading

def call? : Loading → Option FileCall
  | opening path => some (.read path)
  | extending (.waiting _ path) => some (.read path)
  | _ => none

def result? : Loading → Option (Except Fault RuleConfig)
  | extending (.done config) => some (.ok config)
  | failed fault => some (.error fault)
  | _ => none

def resume (home : Option Path) (layer : FileLayer) (log : Journal) :
    Loading → Loading × Journal
  | opening path =>
    match (layer.read path).bind (RuleConfig.parse path) with
    | .ok config =>
      let chain : Chain :=
        { places := { home }
          base := path.parent?.getD ⟨""⟩
          visited := [path.normalize]
          layers := [config] }
      let (read, log) := ChainRead.start chain log
      (extending read, log)
    | .error fault => (failed fault, log)
  | extending (.waiting chain path) =>
    let (read, log) := ChainRead.receive chain path (layer.read path) log
    (extending read, log)
  | l => (l, log)

end Loading

end LintDesk
