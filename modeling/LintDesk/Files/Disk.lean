import LintDesk.Files.Layer

/-!
A directory tree as an operating system keeps it: files, directories and symbolic links, with a
working directory. Paths are walked part by part, links are followed on the way, and errors are
those of the system calls.
-/

namespace LintDesk

inductive DiskNode where
  /-- A file with its text, if its bytes are text. -/
  | file (text : Option String)
  | directory
  | link (target : String)
  deriving DecidableEq, Repr

/-- A tree: nodes by their names from the root on. -/
structure Disk where
  nodes : List (List String × DiskNode) := []
  workingDirectory : List String := []
  deriving Repr

namespace Disk

def missing : Fault := .io true "No such file or directory (os error 2)"

def taken : Fault := .io false "File exists (os error 17)"

def notDirectory : Fault := .io false "Not a directory (os error 20)"

def isDirectory : Fault := .io false "Is a directory (os error 21)"

def endlessLinks : Fault := .io false "Too many levels of symbolic links (os error 40)"

def notText : Fault := .io false "stream did not contain valid UTF-8"

def node? (d : Disk) (place : List String) : Option DiskNode :=
  if place.isEmpty then some .directory else d.nodes.lookup place

def hasDirectory (d : Disk) (place : List String) : Bool :=
  d.node? place == some .directory

/-- Puts a node at a place, or removes the one there. -/
def put (d : Disk) (place : List String) (node : Option DiskNode) : Disk :=
  let others := d.nodes.filter (·.1 ≠ place)
  { d with nodes := match node with
      | some n => others ++ [(place, n)]
      | none => others }

/-- Where the parts of a path are counted from. -/
def origin (path : Path) (from_ : List String) : List String :=
  if path.isAbsolute then [] else from_

/-- The parts of a path as text. -/
def partsOf (path : Path) : List String :=
  path.parts.map String.ofList

/-- Walks parts from a place on. A last part that does not exist is still a place; a last part
that is a link is followed if `follow` says so. -/
def walk (d : Disk) (follow : Bool) :
    (links : Nat) → (place : List String) → (parts : List String) → Except Fault (List String)
  | _, place, [] => .ok place
  | links, place, part :: rest =>
    if !d.hasDirectory place then .error notDirectory
    else if part = "" ∨ part = "." then d.walk follow links place rest
    else if part = ".." then d.walk follow links place.dropLast rest
    else
      match d.node? (place ++ [part]) with
      | none => if rest.isEmpty then .ok (place ++ [part]) else .error missing
      | some (.link target) =>
        if rest.isEmpty && !follow then .ok (place ++ [part])
        else
          match links with
          | 0 => .error endlessLinks
          | links + 1 => d.walk follow links (origin ⟨target⟩ place) (partsOf ⟨target⟩ ++ rest)
      | some _ => d.walk follow links (place ++ [part]) rest
termination_by links _ parts => (links, parts.length)

def place (d : Disk) (follow : Bool) (path : Path) : Except Fault (List String) :=
  if path.text = "" then .error missing
  else d.walk follow 40 (origin path d.workingDirectory) (partsOf path)

def find (d : Disk) (follow : Bool) (path : Path) : Except Fault DiskNode := do
  match d.node? (← d.place follow path) with
  | some n => .ok n
  | none => .error missing

def kindOf : DiskNode → FileKind
  | .file _ => .file
  | .directory => .directory
  | .link _ => .link

def stat (d : Disk) (path : Path) : Except Fault FileKind :=
  (d.find true path).map kindOf

def read (d : Disk) (path : Path) : Except Fault String := do
  match ← d.find true path with
  | .file (some text) => .ok text
  | .file none => .error notText
  | _ => .error isDirectory

def namesBelow (d : Disk) (place : List String) : List String :=
  let names := d.nodes.filterMap fun (p, _) =>
    if place.isPrefixOf p && p.length = place.length + 1 then p.getLast? else none
  names.mergeSort (fun a b => !(b < a))

def list (d : Disk) (path : Path) : Except Fault (List DirEntry) := do
  let place ← d.place true path
  match d.node? place with
  | some .directory =>
    .ok ((d.namesBelow place).map fun name =>
      ⟨name, ((d.node? (place ++ [name])).map kindOf).getD .other⟩)
  | some _ => .error notDirectory
  | none => .error missing

def isFile (d : Disk) (path : Path) : Bool :=
  match d.stat path with
  | .ok .file => true
  | _ => false

/-- Writes a file, over the one that may be there. -/
def write (d : Disk) (path : Path) (text : String) : Except Fault Disk := do
  let place ← d.place true path
  match d.node? place with
  | some .directory => .error isDirectory
  | _ => .ok (d.put place (some (.file (some text))))

/-- Writes a file where nothing is. -/
def create (d : Disk) (path : Path) (text : String) : Except Fault Disk := do
  let place ← d.place false path
  match d.node? place with
  | some _ => .error taken
  | none => .ok (d.put place (some (.file (some text))))

def remove (d : Disk) (path : Path) : Except Fault Disk := do
  let place ← d.place false path
  match d.node? place with
  | some .directory => .error isDirectory
  | some _ => .ok (d.put place none)
  | none => .error missing

def makeDirectory (d : Disk) (path : Path) : Except Fault Disk := do
  let place ← d.place false path
  match d.node? place with
  | some _ => .error taken
  | none => .ok (d.put place (some .directory))

/-- Makes a directory with its ancestors, as far as they are missing. -/
def makeDirectories (d : Disk) : (fuel : Nat) → (path : Path) → Except Fault Disk
  | fuel, path =>
    if path.text = "" then .ok d
    else
      match d.makeDirectory path with
      | .ok d => .ok d
      | .error f =>
        if f = missing then
          match fuel, path.parent? with
          | fuel + 1, some parent => do
            let d ← d.makeDirectories fuel parent
            d.makeDirectory path
          | _, _ => .error f
        else if (d.stat path).toOption = some .directory then .ok d
        else .error f

def layer (d : Disk) : FileLayer where
  stat := d.stat
  read := d.read
  list := d.list
  isAvailable := true

end Disk

end LintDesk
