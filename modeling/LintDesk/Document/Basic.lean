import LintDesk.Text.Lines
import LintDesk.Url.Basic

/-!
Documents as the host hands them over, and the workspace folders they belong to.
-/

namespace LintDesk

def lintedSchemes : List String := ["untitled", "file", "vscode-vfs", "vscode-test-web", "gist"]

/-- The schemes with a file layer that can be browsed. -/
def schemesWithFiles : List String := ["file", "vscode-vfs", "vscode-test-web"]

def Url.hasFileSystem (u : Url) : Bool :=
  schemesWithFiles.contains u.scheme

/-- A snapshot of an open document. -/
structure Document where
  uri : Url
  text : String
  language : String
  version : Int
  deriving DecidableEq, Repr

namespace Document

def lines (d : Document) : List Line :=
  splitLines d.text.toList

/-- Whether the document is linted, given the languages that are. -/
def isLintable (d : Document) (languages : List String) : Bool :=
  lintedSchemes.contains d.uri.scheme && languages.contains d.language

def path? (d : Document) : Option Path :=
  if d.uri.scheme == "file" then d.uri.filePath?
  else if d.uri.hasFileSystem then some ⟨d.uri.path⟩
  else none

/-- The name under which engines know the document. -/
def name (d : Document) : String :=
  match d.path? with
  | some p => p.text
  | none => d.uri.text

end Document

structure Folder where
  uri : Url
  name : String
  deriving DecidableEq, Repr

def trimSlashes (s : String) : String :=
  String.ofList (s.toList.reverse.dropWhile (· == '/')).reverse

/-- Whether `s` is `base` or continues it with a separator. -/
def isBelow (base s : String) : Bool :=
  s == base || (base ++ "/").toList.isPrefixOf s.toList

namespace Folder

def ofPath? (p : Path) : Option Folder :=
  (Url.ofDirectory? p).map fun uri => ⟨uri, p.fileName?.getD ""⟩

def path? (f : Folder) : Option Path :=
  if f.uri.scheme == "file" then f.uri.filePath? else some ⟨f.uri.path⟩

def isFile (f : Folder) : Bool :=
  f.uri.scheme == "file"

def contains (f : Folder) (u : Url) : Bool :=
  f.uri.scheme == u.scheme && f.uri.authority.getD "" == u.authority.getD "" &&
    isBelow (trimSlashes f.uri.path) u.path

/-- How deep the folder is, by the length of its path. -/
def depth (f : Folder) : Nat :=
  (trimSlashes f.uri.path).utf8ByteSize

end Folder

/-- The element with the greatest key; of equals the last. -/
def lastMaxBy? (key : α → Nat) : List α → Option α
  | [] => none
  | a :: rest =>
    match lastMaxBy? key rest with
    | none => some a
    | some b => if key a > key b then some a else some b

/-- The workspace: the folders the host has open, in order. -/
abbrev Workspace := List Folder

namespace Workspace

/-- The innermost folder that contains a URL. -/
def folderFor? (w : Workspace) (u : Url) : Option Folder :=
  lastMaxBy? Folder.depth (w.filter (·.contains u))

/-- What the workspace is known by when it is trusted. -/
def identity? (w : Workspace) : Option String :=
  w.head?.map (·.uri.text)

/-- The path of a document relative to its folder; its whole path outside every folder, and its
URL where it has no path. -/
def relativePath (w : Workspace) (d : Document) : String :=
  match d.path? with
  | none => d.uri.text
  | some path =>
    let below := do
      let folder ← w.folderFor? d.uri
      let root ← folder.path?
      path.relativeTo? root
    Path.slashed (below.getD path.components)

end Workspace

end LintDesk
