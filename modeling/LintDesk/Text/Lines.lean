/-!
Lines of a text. A line ends at LF, at CR, or at the pair CR LF, which counts once; what follows
the last terminator is a line too, so every text has at least one line.
-/

namespace LintDesk

inductive LineEnding where
  | lf
  | crlf
  | cr
  deriving DecidableEq, Repr

namespace LineEnding

def chars : LineEnding → List Char
  | lf => ['\n']
  | crlf => ['\r', '\n']
  | cr => ['\r']

def name : LineEnding → String
  | lf => "lf"
  | crlf => "crlf"
  | cr => "cr"

def ofName? (s : String) : Option LineEnding :=
  [lf, crlf, cr].find? (·.name == s)

end LineEnding

/-- A line without its terminator. -/
abbrev Line := List Char

/-- Puts a character in front of the first line. -/
def consToFirst (c : Char) : List Line → List Line
  | [] => [[c]]
  | line :: rest => (c :: line) :: rest

/-- The lines of a text, terminators removed. -/
def splitLines : List Char → List Line
  | [] => [[]]
  | '\r' :: '\n' :: rest => [] :: splitLines rest
  | '\r' :: rest => [] :: splitLines rest
  | '\n' :: rest => [] :: splitLines rest
  | c :: rest => consToFirst c (splitLines rest)

/-- The terminators of a text, in order. -/
def terminators : List Char → List LineEnding
  | [] => []
  | '\r' :: '\n' :: rest => .crlf :: terminators rest
  | '\r' :: rest => .cr :: terminators rest
  | '\n' :: rest => .lf :: terminators rest
  | _ :: rest => terminators rest

structure EndingCounts where
  lf : Nat
  crlf : Nat
  cr : Nat
  deriving DecidableEq, Repr

namespace EndingCounts

/-- Counts the terminators in one pass over the text. -/
def ofText : List Char → EndingCounts
  | [] => ⟨0, 0, 0⟩
  | '\r' :: '\n' :: rest => let n := ofText rest; { n with crlf := n.crlf + 1 }
  | '\r' :: rest => let n := ofText rest; { n with cr := n.cr + 1 }
  | '\n' :: rest => let n := ofText rest; { n with lf := n.lf + 1 }
  | _ :: rest => ofText rest

end EndingCounts

/-- The most frequent terminator. Ties go to LF, then to CR LF; a text without terminators
counts as LF. -/
def dominantEnding (text : List Char) : LineEnding :=
  let n := EndingCounts.ofText text
  if n.crlf > n.lf && n.crlf ≥ n.cr then .crlf
  else if n.cr > n.lf && n.cr > n.crlf then .cr
  else .lf

def joinLines (ending : LineEnding) (lines : List Line) : List Char :=
  List.intercalate ending.chars lines

end LintDesk
