import LintDesk.Json.Parser
import LintDesk.Pattern.SymbolSet
import LintDesk.Text.Blank

/-!
JSON as people write it in configuration files: comments, missing and trailing commas, property
names without quotes, single quotes, hexadecimal numbers and a plus sign are accepted.
-/

namespace LintDesk.Json.Lenient

inductive Token where
  | openBrace
  | closeBrace
  | openBracket
  | closeBracket
  | comma
  | colon
  | string (s : String)
  | word (s : String)
  | number (s : String)
  | bool (b : Bool)
  | null
  deriving DecidableEq, Repr

def isWordChar (c : Char) : Bool :=
  if c.toNat < 128 then c.isAlphanum
  else
    ((Pattern.SymbolSet.property? "alphabetic").getD []).has c.toNat ||
      ((Pattern.SymbolSet.category? "n").getD []).has c.toNat

/-- Drops a block comment from just after its opening. -/
def blockComment? : List Char → Option (List Char)
  | [] => none
  | '*' :: '/' :: rest => some rest
  | _ :: rest => blockComment? rest

/-- Drops blanks and comments; nothing if a block comment is not closed. -/
def skipIdle : (fuel : Nat) → List Char → Option (List Char)
  | 0, s => some s
  | fuel + 1, s =>
    match s.dropWhile isBlank with
    | '/' :: '/' :: rest => skipIdle fuel (rest.dropWhile (· ≠ '\n'))
    | '/' :: '*' :: rest => (blockComment? rest).bind (skipIdle fuel)
    | rest => some rest

/-- What follows the backslash of an escape; each kind of quote can be escaped only in strings of
its own kind. -/
def escape? (quote : Char) : List Char → Option (Char × List Char)
  | '"' :: rest => if quote = '"' then some ('"', rest) else none
  | '\'' :: rest => if quote = '\'' then some ('\'', rest) else none
  | s => Json.escape? s

/-- The rest of a string after its opening quote. Line breaks are allowed in it. -/
def stringTail (quote : Char) : (fuel : Nat) → List Char → List Char → Option (String × List Char)
  | 0, _, _ => none
  | _, _, [] => none
  | fuel + 1, acc, c :: rest =>
    if c = quote then some (String.ofList acc.reverse, rest)
    else if c = '\\' then do
      let (c, rest) ← escape? quote rest
      stringTail quote fuel (c :: acc) rest
    else stringTail quote fuel (c :: acc) rest

/-- Digits, of which there must be one. -/
def digits? (s : List Char) : Option (List Char × List Char) :=
  let ds := s.takeWhile Char.isDigit
  if ds.isEmpty then none else some (ds, s.drop ds.length)

/-- The fraction of a number, if any. -/
def fraction? : List Char → Option (List Char × List Char)
  | '.' :: rest => (digits? rest).map fun (ds, rest) => ('.' :: ds, rest)
  | s => some ([], s)

/-- The exponent of a number, if any. -/
def exponent? : List Char → Option (List Char × List Char)
  | c :: rest =>
    if c = 'e' ∨ c = 'E' then
      match rest with
      | d :: tail =>
        if d = '+' ∨ d = '-' then (digits? tail).map fun (ds, rest) => (c :: d :: ds, rest)
        else (digits? rest).map fun (ds, rest) => (c :: ds, rest)
      | [] => none
    else some ([], c :: rest)
  | [] => some ([], [])

/-- The digits of a number without its sign. -/
def unsigned? : List Char → Option (List Char × List Char)
  | '0' :: x :: rest =>
    if x = 'x' ∨ x = 'X' then
      let ds := rest.takeWhile fun c => (hexDigit? c).isSome
      if ds.isEmpty then none else some ('0' :: x :: ds, rest.drop ds.length)
    else finish ['0'] (x :: rest)
  | '0' :: rest => finish ['0'] rest
  | s => (digits? s).bind fun (ds, rest) => finish ds rest
where
  finish (whole rest : List Char) : Option (List Char × List Char) := do
    let (f, rest) ← fraction? rest
    let (e, rest) ← exponent? rest
    return (whole ++ f ++ e, rest)

def number? (s : List Char) : Option (List Char × List Char) :=
  match s with
  | c :: rest =>
    if c = '-' ∨ c = '+' then (unsigned? rest).map fun (ds, rest) => (c :: ds, rest)
    else unsigned? s
  | [] => none

/-- Reads a fixed word that no letter or number follows. -/
def fixedWord? (w : String) (s : List Char) : Option (List Char) :=
  if w.toList.isPrefixOf s then
    let rest := s.drop w.length
    if rest.head?.any isWordChar then none else some rest
  else none

/-- A word: letters, numbers, hyphens and underscores up to a blank or a colon. -/
def word? (s : List Char) : Option (String × List Char) :=
  let w := s.takeWhile fun c => isWordChar c || c = '-' || c = '_'
  let rest := s.drop w.length
  if w.isEmpty then none
  else if rest.head?.all (fun c => isBlank c || c = ':') then some (String.ofList w, rest)
  else none

/-- The next token, `none` inside at the end of the text. -/
def token? (s : List Char) : Option (Option Token × List Char) := do
  let s ← skipIdle (s.length + 1) s
  match s with
  | [] => return (none, [])
  | '\x7b' :: rest => return (some .openBrace, rest)
  | '\x7d' :: rest => return (some .closeBrace, rest)
  | '[' :: rest => return (some .openBracket, rest)
  | ']' :: rest => return (some .closeBracket, rest)
  | ',' :: rest => return (some .comma, rest)
  | ':' :: rest => return (some .colon, rest)
  | '/' :: _ => none
  | c :: rest =>
    if c = '"' ∨ c = '\'' then
      (stringTail c (rest.length + 1) [] rest).map fun (t, rest) => (some (.string t), rest)
    else if c = '-' ∨ c = '+' ∨ c.isDigit then
      (number? s).map fun (ds, rest) => (some (.number (String.ofList ds)), rest)
    else
      match fixedWord? "true" s, fixedWord? "false" s, fixedWord? "null" s with
      | some rest, _, _ => return (some (.bool true), rest)
      | _, some rest, _ => return (some (.bool false), rest)
      | _, _, some rest => return (some .null, rest)
      | none, none, none => (word? s).map fun (w, rest) => (some (.word w), rest)

def tokens? : (fuel : Nat) → List Char → Option (List Token)
  | 0, _ => none
  | fuel + 1, s => do
    match ← token? s with
    | (none, _) => return []
    | (some t, rest) => return t :: (← tokens? fuel rest)

/-- The value of a number; one that does not fit is kept as text. -/
def numberValue (text : String) : Json :=
  let body := text.toList.dropWhile fun c => c = '-' ∨ c = '+'
  let negative := text.toList.head? = some '-'
  match body with
  | '0' :: x :: hex =>
    if x = 'x' ∨ x = 'X' then
      let n := Pattern.SymbolSet.hexNat hex
      if n < 0x8000_0000_0000_0000 then .int (if negative then -n else n) else .str text
    else plain
  | _ => plain
where
  plain : Json :=
    let body := text.toList.dropWhile (· = '+')
    match Json.number? body with
    | some (n, []) => .num n
    | _ => .str text

mutual

def value : (fuel : Nat) → List Token → Option (Json × List Token)
  | 0, _ => none
  | fuel + 1, ts =>
    match ts with
    | .openBrace :: rest => object fuel [] rest
    | .openBracket :: rest => array fuel [] rest
    | .string s :: rest => some (.str s, rest)
    | .bool b :: rest => some (.bool b, rest)
    | .null :: rest => some (.null, rest)
    | .number n :: rest => some (numberValue n, rest)
    | _ => none

def object : (fuel : Nat) → List (String × Json) → List Token → Option (Json × List Token)
  | 0, _, _ => none
  | fuel + 1, acc, ts =>
    let property (name : String) (ts : List Token) : Option (Json × List Token) := do
      let (v, rest) ← value fuel ts
      let rest := match rest with
        | .comma :: tail => tail
        | _ => rest
      object fuel ((name, v) :: acc) rest
    match ts with
    | .closeBrace :: rest => some (mkObj acc.reverse, rest)
    | .string name :: .colon :: rest => property name rest
    | .word name :: .colon :: rest => property name rest
    | .number name :: .colon :: rest => property name rest
    | _ => none

def array : (fuel : Nat) → List Json → List Token → Option (Json × List Token)
  | 0, _, _ => none
  | fuel + 1, acc, ts =>
    match ts with
    | .closeBracket :: rest => some (.arr acc.reverse, rest)
    | _ => do
      let (v, rest) ← value fuel ts
      let rest := match rest with
        | .comma :: tail => tail
        | _ => rest
      array fuel (v :: acc) rest

end

/-- Reads a text; one without a value stands for an empty object. -/
def parse? (text : String) : Option Json := do
  let s := text.toList
  let ts ← tokens? (s.length + 1) s
  match ts with
  | [] => return .obj []
  | ts =>
    match ← value (2 * ts.length + 2) ts with
    | (v, []) => return v
    | _ => none

end LintDesk.Json.Lenient
