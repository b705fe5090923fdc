import LintDesk.Files.Layer

/-!
A file layer held in memory. Every ancestor of a path it holds is a directory. Paths are compared
component by component, and `..` is a component like any other.
-/

namespace LintDesk

inductive MemoryNode where
  /-- A file; every call on it takes `delay` milliseconds. -/
  | file (text : String) (delay : Nat)
  | directory
  | other
  /-- A file that can be neither read nor listed. -/
  | denied
  | link (target : Path)
  deriving DecidableEq, Repr

/-- The layer: nodes by the components of their paths. -/
structure MemoryFiles where
  nodes : List (List Component × MemoryNode) := []
  isAvailable : Bool := true
  deriving Repr

namespace MemoryFiles

def refusal : Fault := .io false "denied"

def write (m : MemoryFiles) (path : Path) (node : Option MemoryNode) : MemoryFiles :=
  let others := m.nodes.filter (·.1 ≠ path.components)
  { m with nodes := match node with
      | some n => others ++ [(path.components, n)]
      | none => others }

/-- The node at a path, whether stored or implied by what is below it. -/
def at? (m : MemoryFiles) (path : List Component) : Option MemoryNode :=
  match m.nodes.lookup path with
  | some n => some n
  | none =>
    if path = [.root] ∨ m.nodes.any (fun (p, _) => path.isPrefixOf p) then some .directory
    else none

/-- The node at the end of a chain of links. -/
def follow? (m : MemoryFiles) : (fuel : Nat) → List Component → Option MemoryNode
  | 0, _ => none
  | fuel + 1, path =>
    match m.at? path with
    | some (.link target) => follow? m fuel target.components
    | node => node

def resolve? (m : MemoryFiles) (path : Path) : Option MemoryNode :=
  m.follow? (m.nodes.length + 1) path.components

def kindOf : MemoryNode → FileKind
  | .file _ _ => .file
  | .directory => .directory
  | .other => .other
  | .denied => .file
  | .link _ => .link

def namesBelow (m : MemoryFiles) (path : List Component) : List String :=
  let names := m.nodes.filterMap fun (p, _) =>
    if path.isPrefixOf p then
      match p.drop path.length with
      | .name s :: _ => some s
      | .up :: _ => some ".."
      | _ => none
    else none
  names.eraseDups.mergeSort (fun a b => !(b < a))

def stat (m : MemoryFiles) (path : Path) : Except Fault FileKind :=
  match m.resolve? path with
  | some n => .ok (kindOf n)
  | none => .error (.notFound path.text)

def read (m : MemoryFiles) (path : Path) : Except Fault String :=
  match m.resolve? path with
  | some (.file text _) => .ok text
  | some _ => .error refusal
  | none => .error (.notFound path.text)

def list (m : MemoryFiles) (path : Path) : Except Fault (List DirEntry) :=
  match m.resolve? path with
  | some .directory =>
    let base := path.components
    .ok ((m.namesBelow base).map fun name =>
      ⟨name, ((m.at? (base ++ [.name name])).map kindOf).getD .other⟩)
  | some _ => .error refusal
  | none => .error (.notFound path.text)

def delay (m : MemoryFiles) (path : Path) : Nat :=
  match m.nodes.lookup path.components with
  | some (.file _ delay) => delay
  | _ => 0

def layer (m : MemoryFiles) : FileLayer :=
  if m.isAvailable then
    { stat := m.stat, read := m.read, list := m.list, isAvailable := true }
  else .none

end MemoryFiles

end LintDesk
