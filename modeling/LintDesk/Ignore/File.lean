import LintDesk.Pattern.Globs
import LintDesk.Path
import LintDesk.Text.Blank

/-!
Ignore files. Each line is a glob: `!` takes an earlier match back, a separator at the end
restricts it to directories, and a glob without a separator matches at any depth. The last line
that matches decides; a path that no line matches is decided by its nearest ancestor that one
matches. Blank lines, comments and malformed globs do not count.
-/

namespace LintDesk

structure IgnoreLine where
  glob : Pattern.Glob
  /-- Whether a match takes an earlier one back. -/
  negated : Bool
  onlyDirectories : Bool
  deriving Repr

namespace IgnoreLine

def options : Pattern.GlobOptions := { separatorIsLiteral := true, lenientClass := true }

def endsIn (ending s : String) : Bool :=
  ending.toList.isSuffixOf s.toList

/-- The glob a line stands for: relative to any directory unless it holds a separator, and with
`/*` added after `/**` so that a directory does not match itself. -/
def globText (anchored : Bool) (line : List Char) : String :=
  let text := String.ofList line
  let free := !anchored && !line.contains '/' && text ≠ "**" && !("**/".toList.isPrefixOf line)
  let text := if free then "**/" ++ text else text
  if endsIn "/**" text then text ++ "/*" else text

/-- Reads one line; nothing for blank lines, comments and malformed globs. -/
def ofText? (line : String) : Option IgnoreLine := do
  let chars := line.toList
  if chars.head? = some '#' then none
  let chars := if endsIn "\\ " line then chars else trimEndWhere isBlank chars
  if chars.isEmpty then none
  let (negated, anchored, chars) := match chars with
    | '\\' :: '!' :: rest => (false, false, '!' :: rest)
    | '\\' :: '#' :: rest => (false, false, '#' :: rest)
    | '!' :: '/' :: rest => (true, true, rest)
    | '!' :: rest => (true, false, rest)
    | '/' :: rest => (false, true, rest)
    | _ => (false, false, chars)
  let onlyDirectories := chars.getLast? = some '/'
  let chars := if onlyDirectories then chars.dropLast else chars
  let chars := if onlyDirectories ∧ chars.getLast? = some '\\' then chars.dropLast else chars
  let glob ← Pattern.Glob.compile? options (globText anchored chars)
  return { glob, negated, onlyDirectories }

end IgnoreLine

abbrev IgnoreFile := List IgnoreLine

inductive Verdict where
  | ignored
  | kept
  deriving DecidableEq, Repr

namespace IgnoreFile

/-- Splits at line feeds; a carriage return in front of one goes with it, and a line feed at the
very end starts no line. -/
def textLines (contents : String) : List String :=
  let lines := contents.splitOn "\n"
  let lines := if lines.getLast? = some "" then lines.dropLast else lines
  lines.map fun l =>
    if l.toList.getLast? = some '\r' then String.ofList l.toList.dropLast else l

def ofText (contents : String) : IgnoreFile :=
  (textLines contents).filterMap IgnoreLine.ofText?

/-- The verdict of the last line that matches. -/
def verdict? (f : IgnoreFile) (path : String) (isDirectory : Bool) : Option Verdict :=
  (f.reverse.find? fun line =>
      line.glob.isMember path && (!line.onlyDirectories || isDirectory)).map fun line =>
    if line.negated then .kept else .ignored

/-- A path without a leading `./`, and without a leading separator if it has several parts. -/
def strip (path : String) : String :=
  let chars := match path.toList with
    | '.' :: '/' :: rest => rest
    | cs => cs
  match chars with
  | '/' :: rest => String.ofList rest
  | cs => String.ofList cs

/-- The verdict on a path, or else on its nearest ancestor that has one. -/
def verdictOrParents? (f : IgnoreFile) : (fuel : Nat) → (path : Path) → (isDirectory : Bool) →
    Option Verdict
  | 0, _, _ => none
  | fuel + 1, path, isDirectory =>
    match f.verdict? path.text isDirectory with
    | some v => some v
    | none =>
      match path.parent? with
      | some parent => verdictOrParents? f fuel parent true
      | none => none

/-- Whether a file is ignored. Ancestors count only for relative paths. -/
def ignores (f : IgnoreFile) (path : String) : Bool :=
  let stripped := strip path
  let verdict :=
    if Path.isAbsolute ⟨path⟩ then f.verdict? stripped false
    else f.verdictOrParents? (stripped.length + 1) ⟨stripped⟩ false
  verdict == some .ignored

end IgnoreFile

end LintDesk
