import LintDesk.Ignore.File
import LintDesk.Fault
import LintDesk.Settings.Basic

/-!
Ignore sets: what the ignore setting and the ignore file say together. A path is ignored if any
member says so.
-/

namespace LintDesk

/-- A member of an ignore set. -/
inductive IgnorePredicate where
  | glob (g : Pattern.Glob)
  | file (f : IgnoreFile)
  deriving Repr

namespace IgnorePredicate

/-- Whether a path relative to the workspace is ignored. -/
def holds (path : String) : IgnorePredicate → Bool
  | glob g => g.isMatch path
  | file f => f.ignores path

/-- The member a glob of the setting makes; nothing if it is malformed. -/
def ofGlob? (pattern : String) : Option IgnorePredicate :=
  (Pattern.Glob.compile? { separatorIsLiteral := true } pattern).map glob

def ofFile (contents : String) : IgnorePredicate :=
  file (IgnoreFile.ofText contents)

end IgnorePredicate

abbrev IgnoreSet := List IgnorePredicate

namespace IgnoreSet

def ignores (s : IgnoreSet) (path : String) : Bool :=
  s.any (·.holds path)

/-- The set of a setting, with the ignore file if its contents are known. -/
def compile (setting : IgnoreSetting) (contents : Option String) : IgnoreSet :=
  match setting with
  | .globs patterns => patterns.filterMap IgnorePredicate.ofGlob?
  | .file _ => contents.toList.map IgnorePredicate.ofFile

end IgnoreSet

/-- The predicate of an ignore file that was read: none if the file does not exist, and a fault if
it cannot be read. -/
def ignoreFilePredicate (path : Path) : Except Fault String → Except Fault (Option IgnorePredicate)
  | .ok contents => .ok (some (.ofFile contents))
  | .error fault =>
    if fault.isNotFound then .ok none
    else .error (.ignoring ("Unable to read ignore file '" ++ path.text ++ "': " ++ fault.message))

/-- What an ignore set is kept for: a workspace folder and the setting. -/
structure IgnoreKey where
  folder : Option Url
  setting : IgnoreSetting
  deriving DecidableEq, Repr

/-- A set that is kept, with the note whether its ignore file has been asked for. -/
structure IgnoreEntry where
  key : IgnoreKey
  set : IgnoreSet
  fileAsked : Bool
  deriving Repr

/-- Ignore sets that are kept. Every invalidation starts a new epoch, and what was begun in an
earlier epoch changes nothing. -/
structure IgnoreCache where
  entries : List IgnoreEntry := []
  epoch : Nat := 0
  deriving Repr

namespace IgnoreCache

def find? (c : IgnoreCache) (key : IgnoreKey) : Option IgnoreEntry :=
  List.find? (fun e => e.key == key) c.entries

def modify (c : IgnoreCache) (key : IgnoreKey) (f : IgnoreEntry → IgnoreEntry) : IgnoreCache :=
  { c with entries := c.entries.map fun e => if e.key == key then f e else e }

/-- The set of a key, compiled if it is not there yet. -/
def get (c : IgnoreCache) (key : IgnoreKey) : IgnoreSet × IgnoreCache :=
  match c.find? key with
  | some e => (e.set, c)
  | none =>
    let set := IgnoreSet.compile key.setting none
    (set, { c with entries := c.entries ++ [⟨key, set, false⟩] })

/-- Reserves the reading of the ignore file; only the first call for a key in an epoch succeeds. -/
def reserve (c : IgnoreCache) (key : IgnoreKey) (epoch : Nat) : Bool × IgnoreCache :=
  if c.epoch == epoch && (c.find? key).any (!·.fileAsked) then
    (true, c.modify key fun e => { e with fileAsked := true })
  else (false, c)

/-- Adds a predicate to the set of a key, unless the epoch is over. -/
def append (c : IgnoreCache) (key : IgnoreKey) (epoch : Nat) (p : IgnorePredicate) :
    Bool × IgnoreCache :=
  if c.epoch == epoch && (c.find? key).isSome then
    (true, c.modify key fun e => { e with set := e.set ++ [p] })
  else (false, c)

def invalidate (c : IgnoreCache) : IgnoreCache :=
  { entries := [], epoch := c.epoch + 1 }

end IgnoreCache

end LintDesk
