import LintDesk.Json.Parser
import LintDesk.Yaml.Cursor

/-!
The text of YAML scalars: plain, in single or double quotes, and in blocks. Line breaks inside
the first three are folded: one becomes a space, and of more the first is dropped.
-/

namespace LintDesk.Yaml

/-- What stands between two words of a scalar: blanks of one line, or line breaks. -/
structure Gap where
  blanks : List Char := []
  first : List Char := []
  more : List Char := []
  broken : Bool := false

namespace Gap

def text (g : Gap) : List Char :=
  if g.broken then
    if g.first.head? = some '\n' then (if g.more.isEmpty then [' '] else g.more)
    else g.first ++ g.more
  else g.blanks

/-- Reads a gap. Where `margin` is given, a line must not start with a tab left of it. -/
def read? (margin : Option Int) : (fuel : Nat) → Gap → Cursor → Option (Gap × Cursor)
  | 0, _, _ => none
  | fuel + 1, g, c =>
    match c.rest with
    | [] => some (g, c)
    | x :: _ =>
      if isPad x then
        if g.broken && x = '\t' && margin.any (fun m => (c.column : Int) < m) then none
        else if g.broken then read? margin fuel g (c.advance 1)
        else read? margin fuel { g with blanks := g.blanks ++ [x] } (c.advance 1)
      else if isBreak x then
        let (text, c) := c.readBreak
        if g.broken then read? margin fuel { g with more := g.more ++ text } c
        else read? margin fuel { first := text, broken := true } c
      else some (g, c)

end Gap

/-- The flow indicators: they end a plain scalar inside brackets. -/
def isFlowIndicator (c : Char) : Bool :=
  c = ',' || c = '[' || c = ']' || c = '\x7b' || c = '\x7d'

/-- A word of a plain scalar; nothing if a colon stands where it cannot. -/
def plainWord? (flow : Bool) : List Char → Option (List Char)
  | [] => some []
  | c :: rest =>
    let next := rest.head?
    if isPad c || isBreak c then some []
    else if flow && c = ':' && next.any (fun x => isFlowIndicator x || x = '?') then none
    else if (c = ':' && endsWord next) || (flow && isFlowIndicator c) then some []
    else (plainWord? flow rest).map (c :: ·)

/-- A plain scalar from its first word on, and whether a line ended after its last word. -/
def plain? (flow : Bool) (margin : Int) :
    (fuel : Nat) → List Char → Gap → Cursor → Option (List Char × Bool × Cursor)
  | 0, _, _, _ => none
  | fuel + 1, done, gap, c =>
    if c.seesDivision || c.sees '#' then some (done, gap.broken, c)
    else do
      let word ← plainWord? flow c.rest
      if word.isEmpty then return (done, gap.broken, c)
      let done := done ++ gap.text ++ word
      let c := c.advance word.length
      if c.rest.head?.all (fun x => !(isPad x || isBreak x)) then return (done, false, c)
      let (gap, c) ← Gap.read? (some margin) (c.rest.length + 1) {} c
      if !flow && (c.column : Int) < margin then return (done, gap.broken, c)
      plain? flow margin fuel done gap c

/-- Some hexadecimal digits, read as a character. -/
def codePoint? (count : Nat) (s : List Char) : Option Char := do
  let ds ← (s.take count).mapM Json.hexDigit?
  let n := ds.foldl (fun n d => n * 16 + d) 0
  if ds.length = count ∧ n.isValidChar then some (Char.ofNat n) else none

/-- The character an escape stands for, given what follows the backslash, and the length of that. -/
def escape? : List Char → Option (Char × Nat)
  | '0' :: _ => some (Char.ofNat 0, 1)
  | 'a' :: _ => some (Char.ofNat 7, 1)
  | 'b' :: _ => some (Char.ofNat 8, 1)
  | 't' :: _ => some ('\t', 1)
  | '\t' :: _ => some ('\t', 1)
  | 'n' :: _ => some ('\n', 1)
  | 'v' :: _ => some (Char.ofNat 11, 1)
  | 'f' :: _ => some (Char.ofNat 12, 1)
  | 'r' :: _ => some ('\r', 1)
  | 'e' :: _ => some (Char.ofNat 27, 1)
  | ' ' :: _ => some (' ', 1)
  | '"' :: _ => some ('"', 1)
  | '/' :: _ => some ('/', 1)
  | '\\' :: _ => some ('\\', 1)
  | 'N' :: _ => some (Char.ofNat 0x85, 1)
  | '_' :: _ => some (Char.ofNat 0xA0, 1)
  | 'L' :: _ => some (Char.ofNat 0x2028, 1)
  | 'P' :: _ => some (Char.ofNat 0x2029, 1)
  | 'x' :: s => (codePoint? 2 s).map (·, 3)
  | 'u' :: s => (codePoint? 4 s).map (·, 5)
  | 'U' :: s => (codePoint? 8 s).map (·, 9)
  | _ => none

/-- A word of a quoted scalar, last character first, and whether an escaped line break ended it. -/
def quotedWord? (single : Bool) :
    (fuel : Nat) → List Char → Cursor → Option (List Char × Bool × Cursor)
  | 0, _, _ => none
  | fuel + 1, done, c =>
    match c.rest with
    | [] => some (done, false, c)
    | x :: tail =>
      if isPad x || isBreak x then some (done, false, c)
      else if single && x = '\'' then
        if tail.head? = some '\'' then quotedWord? single fuel ('\'' :: done) (c.advance 2)
        else some (done, false, c)
      else if !single && x = '"' then some (done, false, c)
      else if !single && x = '\\' then
        if tail.head?.any isBreak then some (done, true, (c.advance 1).readBreak.2)
        else do
          let (y, length) ← escape? tail
          quotedWord? single fuel (y :: done) (c.advance (length + 1))
      else quotedWord? single fuel (x :: done) (c.advance 1)

def quoted? (single : Bool) : (fuel : Nat) → List Char → Cursor → Option (List Char × Cursor)
  | 0, _, _ => none
  | fuel + 1, done, c =>
    if c.seesDivision || c.rest.isEmpty then none
    else do
      let (word, broken, c) ← quotedWord? single (c.rest.length + 1) [] c
      let done := done ++ word.reverse
      if c.sees (if single then '\'' else '"') then return (done, c.advance 1)
      let (gap, c) ← Gap.read? none (c.rest.length + 1) { broken } c
      quoted? single fuel (done ++ gap.text) c

/-- What becomes of the line breaks at the end of a block scalar. -/
inductive Chomping where
  | strip
  | clip
  | keep
  deriving DecidableEq, Repr

/-- The empty lines before a line of a block scalar, the column after the indentation, and the
widest indentation seen. An `indent` of zero is not known yet. -/
def blockBreaks? (indent : Nat) :
    (fuel : Nat) → (widest : Nat) → List Char → Cursor → Option (List Char × Nat × Cursor)
  | 0, _, _, _ => none
  | fuel + 1, widest, breaks, c =>
    let spaces := c.rest.takeWhile (· = ' ')
    let c := c.advance (if indent = 0 then spaces.length else min spaces.length (indent - c.column))
    let widest := max widest c.column
    if (indent = 0 || c.column < indent) && c.sees '\t' then none
    else if c.rest.head?.any isBreak then
      let (text, c) := c.readBreak
      blockBreaks? indent fuel widest (breaks ++ text) c
    else some (breaks, widest, c)

/-- The lines of a block scalar; `pending` is the break after the last line and `breaks` the empty
lines after that. -/
def blockLines? (literal : Bool) (indent : Nat) :
    (fuel : Nat) → (done pending breaks : List Char) → (wasBlank : Bool) → Cursor →
      Option (List Char × List Char × List Char × Cursor)
  | 0, _, _, _, _, _ => none
  | fuel + 1, done, pending, breaks, wasBlank, c =>
    if c.column = indent && !c.rest.isEmpty then do
      let isBlank := c.rest.head?.any isPad
      let joint :=
        if !literal && pending.head? = some '\n' && !wasBlank && !isBlank then
          (if breaks.isEmpty then [' '] else [])
        else pending
      let (line, c) := c.takeWhile (!isBreak ·)
      let (pending, c) := c.readBreak
      let (more, _, c) ← blockBreaks? indent (c.rest.length + 1) 0 [] c
      blockLines? literal indent fuel (done ++ joint ++ breaks ++ line) pending more isBlank c
    else some (done, pending, breaks, c)

/-- The sign and the digit after a block indicator, in either order. -/
def blockHeader? (c : Cursor) : Option (Chomping × Nat × Cursor) :=
  let sign (c : Cursor) : Chomping × Cursor :=
    if c.sees '+' then (.keep, c.advance 1)
    else if c.sees '-' then (.strip, c.advance 1)
    else (.clip, c)
  let digit (c : Cursor) : Option (Nat × Cursor) :=
    match c.rest.head?.bind Json.digit? with
    | some 0 => none
    | some n => some (n, c.advance 1)
    | none => some (0, c)
  match sign c with
  | (.clip, c) => (digit c).map fun (n, c) => let (chomping, c) := sign c; (chomping, n, c)
  | (chomping, c) => (digit c).map fun (n, c) => (chomping, n, c)

/-- A block scalar from just after its indicator, inside a block indented by `parent`. -/
def block? (literal : Bool) (parent : Int) (c : Cursor) : Option (List Char × Cursor) := do
  let (chomping, increment, c) ← blockHeader? c
  let c := c.skipLineTail
  if !endsLine c.rest.head? then none
  let c := c.readBreak.2
  let given := if increment = 0 then 0 else parent.toNat + increment
  let (breaks, widest, c) ← blockBreaks? given (c.rest.length + 1) 0 [] c
  let indent := if given = 0 then max widest (max (parent + 1).toNat 1) else given
  let (text, pending, breaks, c) ←
    blockLines? literal indent (c.rest.length + 1) [] [] breaks false c
  let tail := match chomping with
    | .strip => []
    | .clip => pending
    | .keep => pending ++ breaks
  return (text ++ tail, c)

end LintDesk.Yaml
