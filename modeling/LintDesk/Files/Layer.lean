import LintDesk.Fault
import LintDesk.Path

/-!
The file layer: what is asked of it, and its answers at one moment. Every call is a point at which
other work may go on, so the work that makes calls is kept as a value between them.
-/

namespace LintDesk

inductive FileKind where
  | file
  | directory
  | link
  | other
  deriving DecidableEq, Repr

def FileKind.name : FileKind → String
  | file => "file"
  | directory => "directory"
  | link => "link"
  | other => "other"

structure DirEntry where
  name : String
  kind : FileKind
  deriving DecidableEq, Repr

inductive FileCall where
  /-- The kind of what a path leads to. -/
  | stat (path : Path)
  /-- The text of a file. -/
  | read (path : Path)
  /-- The entries of a directory. -/
  | list (path : Path)
  deriving DecidableEq, Repr

def FileCall.path : FileCall → Path
  | stat p => p
  | read p => p
  | list p => p

def FileCall.text : FileCall → String
  | stat p => "stat " ++ p.text
  | read p => "read " ++ p.text
  | list p => "list " ++ p.text

/-- The answers of a file layer. Links are followed by all but `list`, which shows them. -/
structure FileLayer where
  stat : Path → Except Fault FileKind
  read : Path → Except Fault String
  list : Path → Except Fault (List DirEntry)
  isAvailable : Bool

def FileLayer.none : FileLayer where
  stat _ := .error .unavailable
  read _ := .error .unavailable
  list _ := .error .unavailable
  isAvailable := false

end LintDesk
