import LintDesk.Pattern.Automaton
import LintDesk.Url.Percent

/-!
Globs. `?` and `*` stand for characters, `**` between separators for any number of directories,
`[..]` for one character of a set and braces for alternatives. Matching works on the bytes of a
path, so `?` and a set stand for one byte.
-/

namespace LintDesk.Pattern

inductive GlobToken where
  | literal (c : Char)
  | any
  | star
  /-- `**/` at the start. -/
  | leading
  /-- `/**` at the end. -/
  | trailing
  /-- `/**/` in the middle. -/
  | between
  | oneOf (negated : Bool) (ranges : List (Char × Char))
  | choice (branches : List (List GlobToken))
  deriving Repr, Inhabited

structure GlobOptions where
  /-- Whether `?` and `*` stop at separators. -/
  separatorIsLiteral : Bool := false
  /-- Whether a `[` without its `]` stands for itself. -/
  lenientClass : Bool := false
  deriving DecidableEq, Repr

namespace Glob

/-- A glob being read: what is left, the character before it, the open sequences of tokens, the
innermost first and each in reverse, and how many sequences were open at each brace. -/
structure State where
  rest : List Char
  prev : Option Char := none
  stack : List (List GlobToken) := [[]]
  braces : List Nat := []
  looseBracket : Bool := false
  deriving Repr

namespace State

def push (s : State) (t : GlobToken) : State :=
  match s.stack with
  | top :: below => { s with stack := (t :: top) :: below }
  | [] => { s with stack := [[t]] }

/-- Adds `*` twice, which is what `**` is where it has no separators around it. -/
def pushStars (s : State) : State :=
  (s.push .star).push .star

def replaceTop (s : State) (f : GlobToken → GlobToken) : State :=
  match s.stack with
  | (t :: top) :: below => { s with stack := (f t :: top) :: below }
  | _ => s

/-- Reads what follows one `*`; `before` is the character in front of it. -/
def star (s : State) (before : Option Char) : State :=
  match s.rest with
  | '*' :: rest =>
    let s := { s with rest, prev := some '*' }
    if (s.stack.headD []).isEmpty then
      match rest with
      | [] => s.push .leading
      | '/' :: tail => { s.push .leading with rest := tail, prev := some '/' }
      | _ => s.pushStars
    else if before ≠ some '/' ∧ (s.stack.length ≤ 1 ∨ (before ≠ some ',' ∧ before ≠ some '\x7b')) then
      s.pushStars
    else
      let collapse (fresh : GlobToken) (s : State) : State := s.replaceTop fun
        | .leading => .leading
        | .trailing => .trailing
        | _ => fresh
      match rest with
      | [] => collapse .trailing s
      | '/' :: tail => collapse .between { s with rest := tail, prev := some '/' }
      | c :: _ =>
        if (c = ',' ∨ c = '\x7d') ∧ s.stack.length ≥ 2 then collapse .trailing s else s.pushStars
  | _ => s.push .star

def closeBrace (s : State) : Option State :=
  match s.braces with
  | [] => none
  | size :: braces =>
    let count := s.stack.length - size
    let branches := (s.stack.take count).map List.reverse
    some ({ s with stack := s.stack.drop count, braces }.push (.choice branches))

end State

/-- The characters of a class up to its closing bracket. Ranges are collected in reverse. -/
def classItems : (first inRange : Bool) → (ranges : List (Char × Char)) → List Char →
    Option (Option (List (Char × Char) × List Char))
  | _, _, _, [] => some none
  | first, inRange, ranges, c :: rest =>
    let extend (c : Char) : Option (List (Char × Char)) :=
      match ranges with
      | (a, _) :: more => if c < a then none else some ((a, c) :: more)
      | [] => some [(c, c)]
    if c = ']' ∧ ¬ first then
      some (some ((if inRange then ('-', '-') :: ranges else ranges).reverse, rest))
    else if c = ']' then classItems false inRange ((c, c) :: ranges) rest
    else if c = '-' ∧ first then classItems false inRange ((c, c) :: ranges) rest
    else if c = '-' ∧ ¬ inRange then classItems false true ranges rest
    else if inRange then
      match extend c with
      | some ranges => classItems false false ranges rest
      | none => none
    else classItems false false ((c, c) :: ranges) rest

/-- Reads a class from just after its bracket. -/
def readClass (o : GlobOptions) (s : State) : Option State :=
  let (negated, body) := match s.rest with
    | '!' :: tail => (true, tail)
    | '^' :: tail => (true, tail)
    | body => (false, body)
  match classItems true false [] body with
  | none => none
  | some none => if o.lenientClass then some { s.push (.literal '[') with looseBracket := true } else none
  | some (some (ranges, rest)) => some { s.push (.oneOf negated ranges) with rest, prev := some ']' }

def readTokens (o : GlobOptions) : (fuel : Nat) → State → Option State
  | 0, s => some s
  | fuel + 1, s =>
    match s.rest with
    | [] => some s
    | c :: rest =>
      let before := s.prev
      let s := { s with rest, prev := some c }
      match c with
      | '?' => readTokens o fuel (s.push .any)
      | '*' => readTokens o fuel (s.star before)
      | '\x7b' =>
        readTokens o fuel { s with braces := s.stack.length :: s.braces, stack := [] :: s.stack }
      | '\x7d' => (s.closeBrace).bind (readTokens o fuel)
      | ',' =>
        if s.braces.isEmpty then readTokens o fuel (s.push (.literal ','))
        else readTokens o fuel { s with stack := [] :: s.stack }
      | '\\' =>
        match rest with
        | [] => none
        | d :: tail => readTokens o fuel { s.push (.literal d) with rest := tail, prev := some d }
      | '[' =>
        if s.looseBracket then readTokens o fuel (s.push (.literal '['))
        else (readClass o s).bind (readTokens o fuel)
      | c => readTokens o fuel (s.push (.literal c))

/-- The tokens of a glob; nothing if a class or a brace is malformed. -/
def parse? (o : GlobOptions) (pattern : String) : Option (List GlobToken) := do
  let s := pattern.toList
  let result ← readTokens o (s.length + 1) { rest := s }
  match result.stack with
  | [tokens] => some tokens.reverse
  | _ => none

def bytes (s : String) : List Nat :=
  s.toUTF8.toList.map UInt8.toNat

def charBytes (c : Char) : List Nat :=
  (Url.utf8Bytes c).map UInt8.toNat

def anyByte : SymbolSet := [(0, 255)]

def noSeparator : SymbolSet := [(0, 46), (48, 255)]

def byteNode (b : Nat) : Node := .symbol (.single b)

def anyNumber (s : SymbolSet) : Node := .many (.symbol s) 0 none true

/-- The bytes a class stands for. Characters of several bytes add each of them, and a range spans
the last byte of its start to the first byte of its end. -/
def classBytes (ranges : List (Char × Char)) : SymbolSet :=
  .ofRanges (ranges.flatMap fun (a, b) =>
    if a = b then (charBytes a).map fun n => (n, n)
    else
      let first := charBytes a
      let last := charBytes b
      (first.dropLast.map fun n => (n, n)) ++ [(first.getLastD 0, last.headD 0)] ++
        ((last.drop 1).map fun n => (n, n)))

mutual

def tokenNode (o : GlobOptions) : GlobToken → Node
  | .literal c => .concat ((charBytes c).map byteNode)
  | .any => .symbol (if o.separatorIsLiteral then noSeparator else anyByte)
  | .star => anyNumber (if o.separatorIsLiteral then noSeparator else anyByte)
  | .leading => .either (.many (byteNode 47) 0 (some 1) true) (.seq (anyNumber anyByte) (byteNode 47))
  | .trailing => .seq (byteNode 47) (anyNumber anyByte)
  | .between => .either (byteNode 47) (.seq (byteNode 47) (.seq (anyNumber anyByte) (byteNode 47)))
  | .oneOf negated ranges =>
    let set := classBytes ranges
    .symbol (if negated then SymbolSet.gaps 255 0 set else set)
  | .choice branches =>
    match branchNodes o branches with
    | [] => .empty
    | nodes => .anyOf nodes

def tokensNode (o : GlobOptions) : List GlobToken → Node
  | [] => .empty
  | t :: rest => .seq (tokenNode o t) (tokensNode o rest)

/-- The patterns of the alternatives that are not empty. -/
def branchNodes (o : GlobOptions) : List (List GlobToken) → List Node
  | [] => []
  | [] :: rest => branchNodes o rest
  | (t :: ts) :: rest => tokensNode o (t :: ts) :: branchNodes o rest

end

/-- Whether a glob is `**` alone. -/
def isEverything : List GlobToken → Bool
  | [.leading] => true
  | _ => false

def wholeProgram (o : GlobOptions) (tokens : List GlobToken) : Program :=
  let body := if isEverything tokens then anyNumber anyByte else tokensNode o tokens
  Program.ofNode (.seq (.look .start) (.seq body (.look .finish)))

end Glob

structure Glob where
  options : GlobOptions
  tokens : List GlobToken
  program : Program
  deriving Repr

namespace Glob

def compile? (o : GlobOptions) (pattern : String) : Option Glob :=
  (parse? o pattern).map fun tokens => ⟨o, tokens, wholeProgram o tokens⟩

def isMatch (g : Glob) (path : String) : Bool :=
  g.program.isMatch (bytes path)

end Glob

end LintDesk.Pattern
