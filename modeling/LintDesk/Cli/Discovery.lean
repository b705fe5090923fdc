import LintDesk.Files.Disk
import LintDesk.Pattern.Globs
import LintDesk.Settings.Basic

/-!
Finding the files a command works on. A pattern that names a file stands for it; all others are
globs over the tree, of which some directories are left out.
-/

namespace LintDesk.Cli

/-- Globs of what is never searched: those the workspace globs exclude. -/
def excludedGlobs : List String :=
  defaultWorkspaceGlobs.filterMap fun g =>
    match g.toList with
    | '!' :: rest => some (String.ofList rest)
    | _ => none

/-- A set of globs, or the first that is malformed. -/
def globsOf : List String → Except String Pattern.Globs
  | [] => .ok []
  | pattern :: rest =>
    match Pattern.Glob.compile? {} pattern with
    | none => .error pattern
    | some g => (globsOf rest).map (g :: ·)

def componentRank : Component → Nat × String
  | .root => (0, "")
  | .here => (1, "")
  | .up => (2, "")
  | .name s => (3, s)

/-- Whether a list of components comes before another or is the same. -/
def componentsLe : List Component → List Component → Bool
  | [], _ => true
  | _ :: _, [] => false
  | a :: as, b :: bs =>
    if a = b then componentsLe as bs
    else
      let (x, s) := componentRank a
      let (y, t) := componentRank b
      x < y || (x = y && s < t)

def pathLe (a b : Path) : Bool :=
  componentsLe a.components b.components

/-- Drops paths that have the components of the path before them. -/
def dropSame : List Path → List Path
  | [] => []
  | [p] => [p]
  | p :: q :: rest => if p.same q then dropSame (p :: rest) else p :: dropSame (q :: rest)

/-- How many names lead to the deepest node of a tree. -/
def depthOf (d : Disk) : Nat :=
  (d.nodes.map (·.1.length)).foldl max 0

/-- A path relative to a directory, in text; the whole path if it is not below it. -/
def relativeText (base path : Path) : String :=
  Path.slashed ((path.relativeTo? base).getD path.components)

/-- The files that a walk finds from a path on, which leads to a place. What is excluded is not
looked at, and links are not followed. -/
def filesBelow (d : Disk) (isExcluded : Path → Bool) :
    (depth : Nat) → (place : List String) → (path : Path) → List Path
  | depth, place, path =>
    match d.node? place with
    | some (.file _) => [path]
    | some .directory =>
      match depth with
      | 0 => []
      | depth + 1 =>
        (d.namesBelow place).flatMap fun name =>
          if isExcluded (path.join ⟨name⟩) then []
          else filesBelow d isExcluded depth (place ++ [name]) (path.join ⟨name⟩)
    | _ => []

/-- Where a walk starts. A link there is followed, but only to a directory. -/
def walkStart? (d : Disk) (base : Path) : Option (List String) :=
  match d.place true base with
  | .error _ => none
  | .ok place =>
    if d.hasDirectory place || (d.place false base).toOption = some place then some place else none

def matchesBelow (d : Disk) (base : Path) (set excluded : Pattern.Globs) : List Path :=
  match walkStart? d base with
  | none => []
  | some place =>
    (filesBelow d (fun p => excluded.isMatch (relativeText base p)) (depthOf d) place base).filter
      fun p => set.isMatch (relativeText base p)

/-- The files that patterns stand for, in order and each once; an error names a pattern that is
malformed. -/
def discover (d : Disk) (base : Path) (patterns : List String) : Except String (List Path) := do
  let (named, globs) := patterns.partition fun p => d.isFile (base.join ⟨p⟩)
  let explicit := named.map fun p => base.join ⟨p⟩
  let found ←
    if globs.isEmpty then .ok []
    else do
      let set ← globsOf globs
      let excluded ← globsOf excludedGlobs
      .ok (matchesBelow d base set excluded)
  return dropSame ((explicit ++ found).mergeSort pathLe)

end LintDesk.Cli
