import LintDesk.Json.Basic
import LintDesk.Json.Decimal

/-!
Text of JSON values: on one line, or with every item on a line of its own, indented by two blanks.
-/

namespace LintDesk.Json

def hexDigit (n : Nat) : Char :=
  if n < 10 then Char.ofNat (48 + n) else Char.ofNat (87 + n)

def escapeChar (c : Char) : List Char :=
  if c = '"' then ['\\', '"']
  else if c = '\\' then ['\\', '\\']
  else if c = '\n' then ['\\', 'n']
  else if c = '\r' then ['\\', 'r']
  else if c = '\t' then ['\\', 't']
  else if c.toNat = 8 then ['\\', 'b']
  else if c.toNat = 12 then ['\\', 'f']
  else if c.toNat < 32 then ['\\', 'u', '0', '0', hexDigit (c.toNat / 16), hexDigit (c.toNat % 16)]
  else [c]

def quote (s : String) : String :=
  "\"" ++ String.ofList (s.toList.flatMap escapeChar) ++ "\""

def numberText : Number → String
  | .int n => toString n
  | .float bits => Decimal.text bits

mutual

/-- The value on one line, without blanks. -/
def compact : Json → String
  | .null => "null"
  | .bool true => "true"
  | .bool false => "false"
  | .num n => numberText n
  | .str s => quote s
  | .arr items => "[" ++ String.intercalate "," (compactItems items) ++ "]"
  | .obj fields => "\x7b" ++ String.intercalate "," (compactFields fields) ++ "\x7d"

def compactItems : List Json → List String
  | [] => []
  | v :: rest => compact v :: compactItems rest

def compactFields : List (String × Json) → List String
  | [] => []
  | (k, v) :: rest => (quote k ++ ":" ++ compact v) :: compactFields rest

end

/-- A line break and the indentation of nesting level `level`. -/
def newline (level : Nat) : String :=
  "\n" ++ String.ofList (List.replicate (2 * level) ' ')

mutual

/-- The value over several lines, starting at nesting level `level`. -/
def pretty (level : Nat) : Json → String
  | .null => "null"
  | .bool true => "true"
  | .bool false => "false"
  | .num n => numberText n
  | .str s => quote s
  | .arr [] => "[]"
  | .arr (v :: rest) =>
    "[" ++ newline (level + 1) ++
      String.intercalate ("," ++ newline (level + 1)) (prettyItems (level + 1) (v :: rest)) ++
      newline level ++ "]"
  | .obj [] => "\x7b\x7d"
  | .obj (f :: rest) =>
    "\x7b" ++ newline (level + 1) ++
      String.intercalate ("," ++ newline (level + 1)) (prettyFields (level + 1) (f :: rest)) ++
      newline level ++ "\x7d"

def prettyItems (level : Nat) : List Json → List String
  | [] => []
  | v :: rest => pretty level v :: prettyItems level rest

def prettyFields (level : Nat) : List (String × Json) → List String
  | [] => []
  | (k, v) :: rest => (quote k ++ ": " ++ pretty level v) :: prettyFields level rest

end

end LintDesk.Json
