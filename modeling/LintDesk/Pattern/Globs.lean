import LintDesk.Pattern.Glob

/-!
Sets of globs. A member that asks only for a literal, a last component, an extension, or a literal
start or end of a path is matched by that alone; this decides paths that end in `..`, which have no
last component and no extension.
-/

namespace LintDesk.Pattern

/-- What a glob of a set looks at. -/
inductive GlobStrategy where
  | whole (text : String)
  | lastComponent (name : String)
  | extension (ext : String)
  | start (text : String)
  /-- A literal end; if `component`, it may also be the whole path without its separator. -/
  | finish (text : String) (component : Bool)
  /-- An extension that a match must have, before the glob itself is tried. -/
  | needsExtension (ext : String)
  | full
  deriving DecidableEq, Repr

namespace Glob

def literalText? (tokens : List GlobToken) : Option String :=
  (tokens.mapM fun t => match t with
    | GlobToken.literal c => some c
    | _ => none).map String.ofList

/-- The tokens without a leading `**/`, and whether there was one. -/
def withoutLeading : List GlobToken → List GlobToken × Bool
  | .leading :: rest => (rest, true)
  | tokens => (tokens, false)

/-- The name a glob wants the last component to have. -/
def componentLiteral? (g : Glob) : Option String :=
  match withoutLeading g.tokens with
  | (t :: rest, true) => (literalText? (t :: rest)).filter (!·.contains '/')
  | _ => none

/-- The extension that alone decides a match. -/
def extension? (g : Glob) : Option String :=
  match withoutLeading g.tokens with
  | (.star :: .literal '.' :: rest, leading) =>
    if !leading && g.options.separatorIsLiteral then none
    else ((literalText? rest).filter fun s => !s.contains '.' && !s.contains '/').map ("." ++ ·)
  | _ => none

/-- The literal start that alone decides a match. -/
def literalStart? (g : Glob) : Option String :=
  match g.tokens.reverse with
  | .star :: rest =>
    if g.options.separatorIsLiteral then none else (literalText? rest.reverse).filter (· ≠ "")
  | .trailing :: rest => (literalText? rest.reverse).map (· ++ "/")
  | _ => (literalText? g.tokens).filter (· ≠ "")

/-- The literal end that alone decides a match. -/
def literalEnd? (g : Glob) : Option (String × Bool) := do
  let (rest, leading) := withoutLeading g.tokens
  let component := match leading, rest with
    | true, .literal _ :: _ => true
    | _, _ => false
  let body ← match rest with
    | [] => none
    | .star :: tail => if g.options.separatorIsLiteral then none else some tail
    | _ => some rest
  let text ← literalText? body
  let text := if component then "/" ++ text else text
  if text = "" ∨ text = "/" then none else some (text, component)

/-- The literals at the end, in reverse. -/
def endingLiterals : List GlobToken → List Char
  | .literal c :: rest => c :: endingLiterals rest
  | _ => []

def requiredExtension? (g : Glob) : Option String :=
  let literals := endingLiterals g.tokens.reverse
  let name := literals.takeWhile (· ≠ '.')
  if name.contains '/' then none
  else if literals.length > name.length then some (String.ofList ('.' :: name.reverse)) else none

/-- What a glob looks at as a member of a set. -/
def strategy (g : Glob) : GlobStrategy :=
  match g.componentLiteral? with
  | some name => .lastComponent name
  | none =>
  match (literalText? g.tokens).filter (· ≠ "") with
  | some text => .whole text
  | none =>
  match g.extension? with
  | some ext => .extension ext
  | none =>
  match g.literalStart? with
  | some text => .start text
  | none =>
  match g.literalEnd? with
  | some (text, component) => .finish text component
  | none =>
  match g.requiredExtension? with
  | some ext => .needsExtension ext
  | none => .full

/-- The last component of a path; `..` is none. -/
def lastComponent? (path : String) : Option String :=
  if path = "" then none
  else
    let name := String.ofList (path.toList.reverse.takeWhile (· ≠ '/')).reverse
    if name = ".." then none else some name

/-- The extension of the last component, with its dot. -/
def extensionOf? (path : String) : Option String :=
  (lastComponent? path).bind fun name =>
    let tail := name.toList.reverse.takeWhile (· ≠ '.')
    if tail.length < name.toList.length then some (String.ofList ('.' :: tail.reverse)) else none

/-- Whether a path matches the glob as a member of a set. -/
def isMember (g : Glob) (path : String) : Bool :=
  match g.strategy with
  | .whole text => path == text
  | .lastComponent name => (lastComponent? path).any fun last => last != "" && last == name
  | .extension ext => extensionOf? path == some ext
  | .start text => text.toList.isPrefixOf path.toList
  | .finish text component =>
    text.toList.isSuffixOf path.toList || (component && "/" ++ path == text)
  | .needsExtension ext => extensionOf? path == some ext && g.isMatch path
  | .full => g.isMatch path

end Glob

abbrev Globs := List Glob

namespace Globs

def isMatch (s : Globs) (path : String) : Bool :=
  s.any (·.isMember path)

end Globs

end LintDesk.Pattern
