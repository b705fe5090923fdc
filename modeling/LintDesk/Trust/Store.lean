import LintDesk.Files.Store
import LintDesk.Json.Parser
import LintDesk.Json.Printer

/-!
The workspaces a user trusts: a list in memory, or a JSON file.
-/

namespace LintDesk

inductive TrustLedger where
  | memory (workspaces : List String) (writable : Bool)
  | file (path : Path)
  deriving Repr

namespace TrustLedger

/-- Below the user's configuration directory. -/
def defaultPath (configDir : Path) : Path :=
  (configDir.join ⟨"mdguard"⟩).join ⟨"trusted-workspaces.json"⟩

/-- The list in a file; one that cannot be used counts as empty. -/
def readList (layer : FileLayer) (path : Path) : List String :=
  match layer.read path with
  | .ok text => ((Json.parse? text).bind Json.strings?).getD []
  | .error _ => []

def workspaces (files : Files) : TrustLedger → List String
  | memory list _ => list
  | file path => readList files.layer path

def isTrusted (s : TrustLedger) (files : Files) (workspace : String) : Bool :=
  (s.workspaces files).contains workspace

def listText (list : List String) : String :=
  Json.pretty 0 (.strings list)

def trust (s : TrustLedger) (files : Files) (workspace : String) :
    Except Fault (TrustLedger × Files) :=
  match s with
  | memory list true =>
    .ok (memory (if list.contains workspace then list else list ++ [workspace]) true, files)
  | memory _ false => .error (.config "store is read-only")
  | file path =>
    let list := readList files.layer path
    if list.contains workspace then .ok (s, files)
    else
      match files with
      | .memory _ => .error .unavailable
      | .disk tree => do
        let tree ← match path.parent? with
          | some dir => tree.makeDirectories dir.components.length dir
          | none => .ok tree
        let tree ← tree.write path (listText (list ++ [workspace]))
        return (s, .disk tree)

end TrustLedger

end LintDesk
