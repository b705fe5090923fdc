/-!
A place in a YAML text: the characters still to be read, with the line and the column they start
at. Lines end at a line feed, a carriage return, both together, a next-line character, and the
line and paragraph separators.
-/

namespace LintDesk.Yaml

def isBreak (c : Char) : Bool :=
  c = '\n' || c = '\r' || c.toNat = 0x85 || c.toNat = 0x2028 || c.toNat = 0x2029

/-- A space or a tab. -/
def isPad (c : Char) : Bool :=
  c = ' ' || c = '\t'

/-- Whether a line ends before the given next character. -/
def endsLine (next : Option Char) : Bool :=
  next.all isBreak

/-- Whether a word ends before the given next character. -/
def endsWord (next : Option Char) : Bool :=
  next.all fun c => isPad c || isBreak c

/-- The characters of names: anchors, handles and directives. -/
def isNameChar (c : Char) : Bool :=
  c.isAlphanum || c = '_' || c = '-'

/-- Characters that may stand in a text at all. -/
def isAllowed (c : Char) : Bool :=
  let n := c.toNat
  n = 9 || n = 10 || n = 13 || (0x20 ≤ n && n ≤ 0x7E) || n = 0x85 || (0xA0 ≤ n && n ≤ 0xD7FF) ||
    (0xE000 ≤ n && n ≤ 0xFFFD) || 0x10000 ≤ n

structure Cursor where
  rest : List Char
  index : Nat := 0
  line : Nat := 0
  column : Nat := 0
  deriving Repr

namespace Cursor

def peek? (c : Cursor) (ahead : Nat) : Option Char :=
  c.rest[ahead]?

def sees (c : Cursor) (x : Char) : Bool :=
  c.rest.head? == some x

def advance (c : Cursor) (n : Nat) : Cursor :=
  { c with rest := c.rest.drop n, index := c.index + n, column := c.column + n }

/-- Reads the characters that satisfy `p`, none of them a line break. -/
def takeWhile (c : Cursor) (p : Char → Bool) : List Char × Cursor :=
  let run := c.rest.takeWhile p
  (run, c.advance run.length)

/-- Goes on past the characters that satisfy `p`, none of them a line break. -/
def skipWhile (c : Cursor) (p : Char → Bool) : Cursor :=
  (c.takeWhile p).2

/-- Reads a line break as the text it stands for: a line feed, or the separator itself. Nothing is
read where no line ends. -/
def readBreak (c : Cursor) : List Char × Cursor :=
  let next (n : Nat) : Cursor :=
    { rest := c.rest.drop n, index := c.index + n, line := c.line + 1, column := 0 }
  match c.rest with
  | '\r' :: '\n' :: _ => (['\n'], next 2)
  | x :: _ =>
    if x = '\r' ∨ x = '\n' ∨ x.toNat = 0x85 then (['\n'], next 1)
    else if isBreak x then ([x], next 1)
    else ([], c)
  | [] => ([], c)

/-- Goes on past blanks and a comment at the end of a line. -/
def skipLineTail (c : Cursor) : Cursor :=
  let c := c.skipWhile isPad
  if c.sees '#' then c.skipWhile (!isBreak ·) else c

/-- Whether a marker that divides documents stands here: three times `x` at the start of a line. -/
def seesMarker (c : Cursor) (x : Char) : Bool :=
  c.column == 0 && c.rest.take 3 == [x, x, x] && endsWord (c.peek? 3)

/-- Whether a document starts or ends here. -/
def seesDivision (c : Cursor) : Bool :=
  c.seesMarker '-' || c.seesMarker '.'

end Cursor

end LintDesk.Yaml
