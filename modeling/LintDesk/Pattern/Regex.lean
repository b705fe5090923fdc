import LintDesk.Pattern.Automaton
import LintDesk.Text.Blank

/-!
Regular expressions. The language has no look-around and no back-references. Classes are Unicode
classes unless that is switched off, and then only patterns that stay within ASCII are accepted.
-/

namespace LintDesk.Pattern.Regex

structure Flags where
  caseless : Bool := false
  multiLine : Bool := false
  dotAll : Bool := false
  lazy : Bool := false
  unicode : Bool := true
  crlf : Bool := false
  verbose : Bool := false
  deriving DecidableEq, Repr

/-- What the reader carries along: the switches in force and the group names used so far. -/
structure Context where
  flags : Flags := {}
  names : List String := []
  deriving Repr

/-- The largest number of instructions a pattern may compile to. -/
def sizeLimit : Nat := 300000

/-- Skips blanks and comments where the verbose switch is on. -/
def skip (f : Flags) (s : List Char) : List Char :=
  if f.verbose then go s.length s else s
where
  go : Nat → List Char → List Char
    | 0, s => s
    | _, [] => []
    | fuel + 1, c :: rest =>
      if isBlank c then go fuel rest
      else if c = '#' then go fuel ((rest.dropWhile (· ≠ '\n')).drop 1)
      else c :: rest

/-- The set a class or a literal stands for under the switches; without Unicode it must stay
within ASCII. -/
def fold (f : Flags) (s : SymbolSet) : SymbolSet :=
  if f.caseless then
    if f.unicode then s.closeUnderCase else s.closeUnderAsciiCase
  else s

/-- Refuses a set that leaves ASCII while Unicode is off. -/
def within? (f : Flags) (s : SymbolSet) : Option SymbolSet :=
  if f.unicode || s.all (fun (_, b) => b < 128) then some s else none

inductive Escape where
  | char (n : Nat)
  | set (s : SymbolSet)
  | look (l : Look)
  deriving Repr

/-- A code point that is a character. -/
def scalar? (n : Nat) : Option Nat :=
  if n ≤ 0x10FFFF ∧ ¬ (0xD800 ≤ n ∧ n ≤ 0xDFFF) then some n else none

/-- A fixed number of hexadecimal digits, or any number of them in braces. -/
def hexCode? (count : Nat) : List Char → Option (Nat × List Char)
  | '\x7b' :: rest =>
    let ds := rest.takeWhile (· ≠ '\x7d')
    match rest.drop ds.length with
    | _ :: tail =>
      if ds.isEmpty ∨ ds.any (fun c => (Json.hexDigit? c).isNone) ∨ ds.length > 16 then none
      else (scalar? (SymbolSet.hexNat ds)).map (·, tail)
    | [] => none
  | s =>
    let ds := s.take count
    if ds.length < count ∨ ds.any (fun c => (Json.hexDigit? c).isNone) then none
    else (scalar? (SymbolSet.hexNat ds)).map (·, s.drop count)

/-- Names of classes are compared without case, blanks, hyphens and underscores. -/
def normalName (name : List Char) : String :=
  let kept := (name.filter fun c => ¬ (c = ' ' ∨ c = '-' ∨ c = '_') && c.toNat < 128).map Char.toLower
  match kept with
  | 'i' :: 's' :: rest => if rest = ['c'] ∨ rest.isEmpty then String.ofList kept else String.ofList rest
  | _ => String.ofList kept

def classByName? (name : String) : Option SymbolSet :=
  let byProperty := if name = "cf" ∨ name = "sc" ∨ name = "lc" then none else SymbolSet.property? name
  byProperty <|> SymbolSet.category? name <|> SymbolSet.script? name

def classByValue? (property value : String) : Option SymbolSet :=
  if property = "gc" ∨ property = "generalcategory" then SymbolSet.category? value
  else if property = "sc" ∨ property = "script" ∨ property = "scx" ∨ property = "scriptextensions" then
    SymbolSet.script? value
  else none

/-- The class in the braces after `\p`. -/
def namedClass? (name : List Char) : Option SymbolSet :=
  let (negated, name) := match name with
    | '^' :: rest => (true, rest)
    | _ => (false, name)
  let property := name.takeWhile fun c => c ≠ '=' && c ≠ ':' && c ≠ '!'
  let found : Option (SymbolSet × Bool) :=
    match name.drop property.length with
    | [] => (classByName? (normalName name)).map (·, false)
    | '!' :: '=' :: value =>
      (classByValue? (normalName property) (normalName value)).map (·, true)
    | '!' :: _ => none
    | _ :: value => (classByValue? (normalName property) (normalName value)).map (·, false)
  found.map fun (s, flip) => if negated != flip then s.complement else s

/-- A class by a single letter or by a name in braces. -/
def unicodeClass? : List Char → Option (SymbolSet × List Char)
  | '\x7b' :: rest =>
    let name := rest.takeWhile (· ≠ '\x7d')
    match rest.drop name.length with
    | _ :: tail => (namedClass? name).map (·, tail)
    | [] => none
  | c :: rest => (classByName? (normalName [c])).map (·, rest)
  | [] => none

/-- Characters that may follow a backslash and then stand for themselves. -/
def escapable (c : Char) : Bool :=
  c.toNat < 128 && !c.isAlphanum && c ≠ '<' && c ≠ '>'

/-- The word-boundary conditions written with braces. -/
def namedBoundary? (ascii : Bool) : List Char → Option (Look × List Char)
  | '\x7b' :: rest =>
    let name := rest.takeWhile (· ≠ '\x7d')
    match String.ofList name, rest.drop (name.length + 1) with
    | "start", tail => some (.wordStart ascii, tail)
    | "end", tail => some (.wordFinish ascii, tail)
    | "start-half", tail => some (.wordStartHalf ascii, tail)
    | "end-half", tail => some (.wordFinishHalf ascii, tail)
    | _, _ => none
  | _ => none

/-- Whether an opening brace after `\b` names a boundary rather than counting repetitions. -/
def namesBoundary : List Char → Bool
  | '\x7b' :: c :: _ => c.isAlpha || c = '-'
  | _ => false

def escape? (f : Flags) : List Char → Option (Escape × List Char)
  | [] => none
  | c :: rest =>
    let ascii := !f.unicode
    let set (s : SymbolSet) : Option (Escape × List Char) := (within? f s).map (.set ·, rest)
    let pick (u a : SymbolSet) : SymbolSet := if f.unicode then u else a
    match c with
    | 'd' => set (pick .digit .asciiDigit)
    | 'D' => set (pick .digit .asciiDigit).complement
    | 's' => set (pick .space .asciiSpace)
    | 'S' => set (pick .space .asciiSpace).complement
    | 'w' => set (pick .word .asciiWord)
    | 'W' => set (pick .word .asciiWord).complement
    | 'p' => if ascii then none else (unicodeClass? rest).map fun (s, rest) => (.set s, rest)
    | 'P' =>
      if ascii then none else (unicodeClass? rest).map fun (s, rest) => (.set s.complement, rest)
    | 'b' =>
      if namesBoundary rest then (namedBoundary? ascii rest).map fun (l, rest) => (.look l, rest)
      else some (.look (.wordBoundary ascii), rest)
    | 'B' => if ascii then none else some (.look (.notWordBoundary ascii), rest)
    | '<' => some (.look (.wordStart ascii), rest)
    | '>' => some (.look (.wordFinish ascii), rest)
    | 'A' => some (.look .start, rest)
    | 'z' => some (.look .finish, rest)
    | 'a' => some (.char 7, rest)
    | 'f' => some (.char 12, rest)
    | 't' => some (.char 9, rest)
    | 'n' => some (.char 10, rest)
    | 'r' => some (.char 13, rest)
    | 'v' => some (.char 11, rest)
    | 'x' => do
      let (n, rest) ← hexCode? 2 rest
      if ascii ∧ n > 127 then none else some (.char n, rest)
    | 'u' => (hexCode? 4 rest).map fun (n, rest) => (.char n, rest)
    | 'U' => (hexCode? 8 rest).map fun (n, rest) => (.char n, rest)
    | c => if escapable c then some (.char c.toNat, rest) else none

/-- The classes written `[:name:]`. -/
def asciiClass? (name : String) : Option SymbolSet :=
  match name with
  | "alnum" => some [(48, 57), (65, 90), (97, 122)]
  | "alpha" => some [(65, 90), (97, 122)]
  | "ascii" => some [(0, 127)]
  | "blank" => some [(9, 9), (32, 32)]
  | "cntrl" => some [(0, 31), (127, 127)]
  | "digit" => some [(48, 57)]
  | "graph" => some [(33, 126)]
  | "lower" => some [(97, 122)]
  | "print" => some [(32, 126)]
  | "punct" => some [(33, 47), (58, 64), (91, 96), (123, 126)]
  | "space" => some [(9, 13), (32, 32)]
  | "upper" => some [(65, 90)]
  | "word" => some SymbolSet.asciiWord
  | "xdigit" => some [(48, 57), (65, 70), (97, 102)]
  | _ => none

/-- Reads `:name:]`, the part of an ASCII class after its first bracket. -/
def readAsciiClass? : List Char → Option (SymbolSet × List Char)
  | ':' :: rest =>
    let (negated, rest) := match rest with
      | '^' :: tail => (true, tail)
      | _ => (false, rest)
    let name := rest.takeWhile (· ≠ ':')
    match rest.drop name.length with
    | ':' :: ']' :: tail =>
      (asciiClass? (String.ofList name)).map fun s => (if negated then s.complement else s, tail)
    | _ => none
  | _ => none

def classItem? (f : Flags) : List Char → Option (Escape × List Char)
  | [] => none
  | '\\' :: rest => do
    let (e, rest) ← escape? f rest
    match e with
    | .look _ => none
    | e => some (e, rest)
  | c :: rest => some (.char c.toNat, rest)

inductive ClassOp where
  | both
  | minus
  | one
  deriving DecidableEq, Repr

def ClassOp.apply : ClassOp → SymbolSet → SymbolSet → SymbolSet
  | both => .inter
  | minus => .diff
  | one => .symmDiff

/-- An item or a range of items. -/
def classRange? (f : Flags) (s : List Char) : Option (SymbolSet × List Char) := do
  let (first, rest) ← classItem? f s
  let rest := skip f rest
  let asSet : Escape → SymbolSet
    | .char n => .single n
    | .set s => s
    | .look _ => []
  match rest with
  | [] => none
  | '-' :: tail =>
    let tail := skip f tail
    match tail with
    | ']' :: _ => return (asSet first, rest)
    | '-' :: _ => return (asSet first, rest)
    | _ =>
      let (last, rest) ← classItem? f tail
      match first, last with
      | .char a, .char b => if a ≤ b then return ([(a, b)], rest) else none
      | _, _ => none
  | _ => return (asSet first, rest)

/-- The items of a bracketed class up to its closing bracket, starting at an item. -/
def classBody (f : Flags) : (fuel : Nat) → (pending : Option (ClassOp × SymbolSet)) →
    (current : SymbolSet) → List Char → Option (SymbolSet × List Char)
  | 0, _, _, _ => none
  | fuel + 1, pending, current, s =>
    let finish : SymbolSet :=
      match pending with
      | some (op, left) => op.apply left (fold f current)
      | none => fold f current
    match skip f s with
    | [] => none
    | ']' :: rest => some (finish, rest)
    | '&' :: '&' :: rest => classBody f fuel (some (.both, finish)) [] rest
    | '-' :: '-' :: rest => classBody f fuel (some (.minus, finish)) [] rest
    | '~' :: '~' :: rest => classBody f fuel (some (.one, finish)) [] rest
    | '[' :: rest =>
      match readAsciiClass? rest with
      | some (set, rest) => classBody f fuel pending (current.union set) rest
      | none => do
        let (set, rest) ← openClass fuel (skip f rest)
        classBody f fuel pending (current.union set) rest
    | rest => do
      let (set, rest) ← classRange? f rest
      classBody f fuel pending (current.union set) rest
where
  /-- A class from just after its opening bracket. -/
  openClass (fuel : Nat) (s : List Char) : Option (SymbolSet × List Char) := do
    let (negated, s) := match s with
      | '^' :: rest => (true, skip f rest)
      | _ => (false, s)
    let dashes := s.takeWhile (· = '-')
    let s := s.drop dashes.length
    let current : SymbolSet := if dashes.isEmpty then [] else .single 45
    let (current, s) := match dashes, s with
      | [], ']' :: rest => (SymbolSet.single 93, rest)
      | _, _ => (current, s)
    let (set, rest) ← classBody f fuel none current s
    let set := if negated then set.complement else set
    (within? f set).map (·, rest)

/-- A bracketed class from just after its opening bracket. -/
def bracketed? (f : Flags) (s : List Char) : Option (SymbolSet × List Char) :=
  classBody.openClass f (s.length + 1) (skip f s)

/-- The switches between `(?` and the `)` or `:` that ends them. -/
def readFlags : (fuel : Nat) → (negated : Bool) → (last : Option Char) → (used : List Char) →
    Flags → List Char → Option (Flags × Bool × Char × List Char)
  | 0, _, _, _, _, _ => none
  | fuel + 1, negated, last, used, f, s =>
    match s with
    | [] => none
    | c :: rest =>
      if c = ')' ∨ c = ':' then
        if last = some '-' then none else some (f, last.isSome, c, rest)
      else if c = '-' then
        if negated then none else readFlags fuel true (some c) used f rest
      else if used.contains c then none
      else
        let set? : Option Flags := match c with
          | 'i' => some { f with caseless := !negated }
          | 'm' => some { f with multiLine := !negated }
          | 's' => some { f with dotAll := !negated }
          | 'U' => some { f with lazy := !negated }
          | 'u' => some { f with unicode := !negated }
          | 'R' => some { f with crlf := !negated }
          | 'x' => some { f with verbose := !negated }
          | _ => none
        match set? with
        | some f => readFlags fuel negated (some c) (c :: used) f rest
        | none => none

/-- The name of a group up to its closing angle bracket. -/
def groupName? (s : List Char) : Option (String × List Char) :=
  let name := s.takeWhile (· ≠ '>')
  let isLetter (c : Char) : Bool := c = '_' || c.isAlpha || c.toNat ≥ 128
  match name, s.drop name.length with
  | c :: more, _ :: rest =>
    if isLetter c ∧ more.all (fun c => isLetter c || c.isDigit || c = '.' || c = '[' || c = ']') then
      some (String.ofList name, rest)
    else none
  | _, _ => none

/-- A decimal number, blanks around it allowed. -/
def count? (s : List Char) : Option (Nat × List Char) :=
  let s := s.dropWhile isBlank
  match Json.digits s with
  | (_, 0, _) => none
  | (n, _, rest) => if n < UInt32.size then some (n, rest.dropWhile isBlank) else none

/-- A repetition after its operand: bounds and whether it is written lazy. -/
def repetition? (f : Flags) : List Char → Option (Option (Nat × Option Nat × Bool × List Char))
  | '*' :: rest => some (some (lazily (0, none) rest))
  | '+' :: rest => some (some (lazily (1, none) rest))
  | '?' :: rest => some (some (lazily (0, some 1) rest))
  | '\x7b' :: rest => do
    let (least, rest) ← count? (skip f rest)
    let (most, rest) ← match rest with
      | ',' :: tail =>
        match skip f tail with
        | '\x7d' :: _ => some (none, skip f tail)
        | tail => (count? tail).map fun (m, rest) => (some m, rest)
      | _ => some (some least, rest)
    match rest with
    | '\x7d' :: tail =>
      if most.all (least ≤ ·) then some (some (lazily (least, most) tail)) else none
    | _ => none
  | _ => some none
where
  lazily (bounds : Nat × Option Nat) (rest : List Char) : Nat × Option Nat × Bool × List Char :=
    match skip f rest with
    | '?' :: tail => (bounds.1, bounds.2, true, tail)
    | _ => (bounds.1, bounds.2, false, rest)

/-- Wraps an operand in the repetitions that follow it. -/
def repeated (f : Flags) : (fuel : Nat) → Node → List Char → Option (Node × List Char)
  | 0, node, s => some (node, s)
  | fuel + 1, node, s => do
    match ← repetition? f (skip f s) with
    | none => return (node, s)
    | some (least, most, isLazy, rest) =>
      repeated f fuel (.many node least most (isLazy == f.lazy)) rest

def literal (f : Flags) (n : Nat) : Node :=
  .symbol (fold f (.single n))

def dot (f : Flags) : SymbolSet :=
  if f.dotAll then [(0, SymbolSet.top)]
  else if f.crlf then SymbolSet.complement [(10, 10), (13, 13)]
  else SymbolSet.complement [(10, 10)]

mutual

/-- Alternatives up to a closing parenthesis or the end of the text. -/
def alternatives : (fuel : Nat) → Context → (done : List Node) → List Char →
    Option (Node × Context × List Char)
  | 0, _, _, _ => none
  | fuel + 1, ctx, done, s => do
    let (node, ctx, rest) ← sequence fuel ctx [] s
    match rest with
    | '|' :: rest => alternatives fuel ctx (node :: done) rest
    | rest => return (.anyOf (node :: done).reverse, ctx, rest)

/-- A sequence up to a bar, a closing parenthesis or the end of the text. -/
def sequence : (fuel : Nat) → Context → (done : List Node) → List Char →
    Option (Node × Context × List Char)
  | 0, _, _, _ => none
  | fuel + 1, ctx, done, s =>
    let f := ctx.flags
    let s := skip f s
    let more (node : Node) (ctx : Context) (rest : List Char) : Option (Node × Context × List Char) := do
      let (node, rest) ← repeated f (rest.length + 1) node rest
      sequence fuel ctx (node :: done) rest
    match s with
    | [] => some (.concat done.reverse, ctx, [])
    | '|' :: _ => some (.concat done.reverse, ctx, s)
    | ')' :: _ => some (.concat done.reverse, ctx, s)
    | '(' :: '?' :: 'P' :: '<' :: rest => do
      let (node, ctx, rest) ← named fuel ctx rest
      more node ctx rest
    | '(' :: '?' :: '<' :: rest => do
      let (node, ctx, rest) ← named fuel ctx rest
      more node ctx rest
    | '(' :: '?' :: rest => do
      let (flags, any, stop, rest) ← readFlags (rest.length + 1) false none [] f rest
      if stop = ')' then
        if any then sequence fuel { ctx with flags } done rest else none
      else
        let (node, ctx, rest) ← group fuel { ctx with flags } rest
        more node { ctx with flags := f } rest
    | '(' :: rest => do
      let (node, ctx, rest) ← group fuel ctx rest
      more node { ctx with flags := f } rest
    | '[' :: rest => do
      let (set, rest) ← bracketed? f rest
      more (.symbol set) ctx rest
    | '\\' :: rest => do
      let (e, rest) ← escape? f rest
      match e with
      | .char n => more (literal f n) ctx rest
      | .set set => more (.symbol (fold f set)) ctx rest
      | .look l => more (.look l) ctx rest
    | '.' :: rest => do
      let set ← within? f (dot f)
      more (.symbol set) ctx rest
    | '^' :: rest =>
      more (.look (if f.multiLine then (if f.crlf then .lineStartCr else .lineStart) else .start)) ctx rest
    | '$' :: rest =>
      more (.look (if f.multiLine then (if f.crlf then .lineFinishCr else .lineFinish) else .finish))
        ctx rest
    | '*' :: _ => none
    | '+' :: _ => none
    | '?' :: _ => none
    | '\x7b' :: _ => none
    | c :: rest => more (literal f c.toNat) ctx rest

def group : (fuel : Nat) → Context → List Char → Option (Node × Context × List Char)
  | 0, _, _ => none
  | fuel + 1, ctx, s => do
    let (node, ctx, rest) ← alternatives fuel ctx [] s
    match rest with
    | ')' :: rest => return (node, ctx, rest)
    | _ => none

/-- A named group from its name on. -/
def named : (fuel : Nat) → Context → List Char → Option (Node × Context × List Char)
  | 0, _, _ => none
  | fuel + 1, ctx, s => do
    let (name, rest) ← groupName? s
    if ctx.names.contains name then none
    let (node, inner, rest) ← group fuel { ctx with names := name :: ctx.names } rest
    return (node, { inner with flags := ctx.flags }, rest)

end

def parse? (pattern : String) : Option Node := do
  let s := pattern.toList
  let (node, _, rest) ← alternatives (4 * s.length + 8) {} [] s
  if rest.isEmpty ∧ node.size ≤ sizeLimit then some node else none

def compile? (pattern : String) : Option Program :=
  (parse? pattern).map Program.ofNode

/-- The first match in a line: the text before it and the text matched. -/
def find? (p : Program) (line : List Char) : Option (List Char × List Char) :=
  (p.find? (line.map Char.toNat)).map fun (first, last) =>
    (line.take first, (line.drop first).take (last - first))

end LintDesk.Pattern.Regex
