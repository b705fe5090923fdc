/-!
File paths with `/` as separator. A path keeps the text it was given; repeated separators, `.`
inside it and a separator at its end do not count when paths are compared.
-/

namespace LintDesk

inductive Component where
  | root
  /-- A `.` at the very start of a relative path. -/
  | here
  | up
  | name (s : String)
  deriving DecidableEq, Repr

def Component.text : Component → String
  | .root => "/"
  | .here => "."
  | .up => ".."
  | .name s => s

/-- A path as written. -/
structure Path where
  text : String
  deriving DecidableEq, Repr, Inhabited

namespace Path

def splitSlash : List Char → List (List Char)
  | [] => [[]]
  | c :: rest =>
    if c = '/' then [] :: splitSlash rest
    else match splitSlash rest with
      | [] => [[c]]
      | part :: more => (c :: part) :: more

def isAbsolute (p : Path) : Bool :=
  p.text.toList.head? == some '/'

/-- The parts after the root, empty ones included. -/
def parts (p : Path) : List (List Char) :=
  match p.text.toList with
  | '/' :: rest => splitSlash rest
  | s => splitSlash s

/-- The component a part stands for; nothing for an empty part and for `.`. -/
def component? (part : List Char) : Option Component :=
  if part = [] ∨ part = ['.'] then none
  else if part = ['.', '.'] then some .up
  else some (.name (String.ofList part))

def components (p : Path) : List Component :=
  let body := p.parts.filterMap component?
  if p.isAbsolute then .root :: body
  else if p.parts.head? = some ['.'] then .here :: body
  else body

/-- Equality of paths, component by component. -/
def same (a b : Path) : Bool :=
  a.components == b.components

def ofComponents : List Component → Path
  | .root :: rest => ⟨"/" ++ String.intercalate "/" (rest.map Component.text)⟩
  | cs => ⟨String.intercalate "/" (cs.map Component.text)⟩

/-- `rest` inside `base`; an absolute `rest` stands on its own. -/
def join (base rest : Path) : Path :=
  if rest.isAbsolute then rest
  else if base.text = "" ∨ base.text.toList.getLast? = some '/' then ⟨base.text ++ rest.text⟩
  else ⟨base.text ++ "/" ++ rest.text⟩

/-- Whether a part at the end of a path can be dropped without changing its components. -/
def isIdle (part : List Char) : Bool :=
  part = [] || part = ['.']

/-- The parts without idle ones at their end. A `.` that starts a relative path is kept. -/
def trimIdle (absolute : Bool) (parts : List (List Char)) : List (List Char) :=
  let kept := (parts.reverse.dropWhile isIdle).reverse
  if kept.isEmpty && !absolute && parts.head? == some ['.'] then [['.']] else kept

/-- The path without its last component; nothing for the root and for the empty path. -/
def parent? (p : Path) : Option Path :=
  let kept := trimIdle p.isAbsolute p.parts
  match kept.reverse with
  | [] => none
  | _ :: before =>
    let rest := trimIdle p.isAbsolute before.reverse
    let body := String.intercalate "/" (rest.map String.ofList)
    some ⟨if p.isAbsolute then "/" ++ body else body⟩

/-- The last component, if it is a name. -/
def fileName? (p : Path) : Option String :=
  match p.components.getLast? with
  | some (.name s) => some s
  | _ => none

/-- Whether `base` is the path itself or one of its ancestors. -/
def startsWith (p base : Path) : Bool :=
  base.components.isPrefixOf p.components

/-- The components of a path below `base`. -/
def relativeTo? (p base : Path) : Option (List Component) :=
  if p.startsWith base then some (p.components.drop base.components.length) else none

/-- Adds a segment after a separator, unless one is there already. -/
def addSegment (out segment : String) : String :=
  if out = "" ∨ out.toList.getLast? = some '/' then out ++ segment else out ++ "/" ++ segment

/-- Components written with single separators; `.` is left out. -/
def slashed (cs : List Component) : String :=
  cs.foldl (fun out c =>
    match c with
    | .root => out ++ "/"
    | .here => out
    | .up => addSegment out ".."
    | .name s => addSegment out s) ""

/-- Drops the last component, unless nothing or only the root is left. -/
def dropLast? (cs : List Component) : Option (List Component) :=
  match cs.getLast? with
  | none => none
  | some .root => none
  | some _ => some cs.dropLast

/-- Adds one component, `..` taking back the component before it where there is one. -/
def resolveStep (done : List Component) : Component → List Component
  | .here => done
  | .up => (dropLast? done).getD (done ++ [.up])
  | c => done ++ [c]

/-- The path with `.` and `..` taken out. -/
def normalize (p : Path) : Path :=
  ofComponents (p.components.foldl resolveStep [])

end Path

end LintDesk
