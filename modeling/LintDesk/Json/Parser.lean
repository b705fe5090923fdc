import LintDesk.Json.Basic
import LintDesk.Json.Decimal

/-!
Reading JSON text. Nothing beyond the standard is accepted: no comments, no trailing commas, no
unpaired surrogates, and no more than 127 levels of nesting. Of repeated keys the last wins.
-/

namespace LintDesk.Json

def isSpace (c : Char) : Bool :=
  c = ' ' || c = '\t' || c = '\n' || c = '\r'

def skipSpace (s : List Char) : List Char :=
  s.dropWhile isSpace

def digit? (c : Char) : Option Nat :=
  if '0' ≤ c ∧ c ≤ '9' then some (c.toNat - 48) else none

def hexDigit? (c : Char) : Option Nat :=
  if '0' ≤ c ∧ c ≤ '9' then some (c.toNat - 48)
  else if 'a' ≤ c ∧ c ≤ 'f' then some (c.toNat - 87)
  else if 'A' ≤ c ∧ c ≤ 'F' then some (c.toNat - 55)
  else none

def hex4? : List Char → Option (Nat × List Char)
  | a :: b :: c :: d :: rest => do
    let a ← hexDigit? a
    let b ← hexDigit? b
    let c ← hexDigit? c
    let d ← hexDigit? d
    return (((a * 16 + b) * 16 + c) * 16 + d, rest)
  | _ => none

/-- A run of digits with its value and its length. -/
def digits (s : List Char) : Nat × Nat × List Char :=
  let ds := s.takeWhile Char.isDigit
  (ds.foldl (fun n c => n * 10 + (c.toNat - 48)) 0, ds.length, s.dropWhile Char.isDigit)

/-- The character a surrogate pair stands for. -/
def pairedChar (high low : Nat) : Char :=
  Char.ofNat (0x10000 + (high - 0xD800) * 0x400 + (low - 0xDC00))

def escape? : List Char → Option (Char × List Char)
  | '"' :: rest => some ('"', rest)
  | '\\' :: rest => some ('\\', rest)
  | '/' :: rest => some ('/', rest)
  | 'b' :: rest => some (Char.ofNat 8, rest)
  | 'f' :: rest => some (Char.ofNat 12, rest)
  | 'n' :: rest => some ('\n', rest)
  | 'r' :: rest => some ('\r', rest)
  | 't' :: rest => some ('\t', rest)
  | 'u' :: rest => do
    let (n, rest) ← hex4? rest
    if 0xDC00 ≤ n ∧ n ≤ 0xDFFF then none
    else if 0xD800 ≤ n ∧ n ≤ 0xDBFF then
      match rest with
      | '\\' :: 'u' :: rest => do
        let (m, rest) ← hex4? rest
        if 0xDC00 ≤ m ∧ m ≤ 0xDFFF then return (pairedChar n m, rest) else none
      | _ => none
    else return (Char.ofNat n, rest)
  | _ => none

/-- The rest of a string after its opening quote. -/
def stringTail : (fuel : Nat) → List Char → List Char → Option (String × List Char)
  | 0, _, _ => none
  | fuel + 1, acc, s =>
    match s with
    | [] => none
    | '"' :: rest => some (String.ofList acc.reverse, rest)
    | '\\' :: rest => do
      let (c, rest) ← escape? rest
      stringTail fuel (c :: acc) rest
    | c :: rest => if c.toNat < 32 then none else stringTail fuel (c :: acc) rest

def exponentPart? : List Char → Option (Int × List Char)
  | '+' :: s => exponentDigits 1 s
  | '-' :: s => exponentDigits (-1) s
  | s => exponentDigits 1 s
where
  exponentDigits (sign : Int) (s : List Char) : Option (Int × List Char) :=
    match digits s with
    | (_, 0, _) => none
    | (n, _, rest) => some (sign * n, rest)

def number? (s : List Char) : Option (Number × List Char) := do
  let (negative, s) := match s with
    | '-' :: rest => (true, rest)
    | _ => (false, s)
  let (whole, count, rest) := digits s
  if count = 0 then none
  if s.head? = some '0' ∧ count > 1 then none
  let (fraction, places, rest) ← match rest with
    | '.' :: tail =>
      match digits tail with
      | (_, 0, _) => none
      | (n, places, tail) => some (n, places, tail)
    | _ => some (0, 0, rest)
  let (exponent, hasExponent, rest) ← match rest with
    | 'e' :: tail => (exponentPart? tail).map fun (n, tail) => (n, true, tail)
    | 'E' :: tail => (exponentPart? tail).map fun (n, tail) => (n, true, tail)
    | _ => some (0, false, rest)
  if places = 0 ∧ ¬ hasExponent then
    if ¬ negative ∧ whole < UInt64.size then return (.int whole, rest)
    if negative ∧ 0 < whole ∧ whole ≤ 0x8000_0000_0000_0000 then return (.int (-whole), rest)
  let bits ← Decimal.read? negative (whole * Nat.pow 10 places + fraction) (exponent - places)
  return (.float bits, rest)

mutual

/-- A value; `depth` bounds the nesting still allowed. -/
def value : (fuel depth : Nat) → List Char → Option (Json × List Char)
  | 0, _, _ => none
  | fuel + 1, depth, s =>
    match skipSpace s with
    | 'n' :: 'u' :: 'l' :: 'l' :: rest => some (.null, rest)
    | 't' :: 'r' :: 'u' :: 'e' :: rest => some (.bool true, rest)
    | 'f' :: 'a' :: 'l' :: 's' :: 'e' :: rest => some (.bool false, rest)
    | '"' :: rest => (stringTail (rest.length + 1) [] rest).map fun (t, rest) => (.str t, rest)
    | '[' :: rest =>
      if depth ≤ 1 then none
      else match skipSpace rest with
        | ']' :: rest => some (.arr [], rest)
        | rest => items fuel (depth - 1) [] rest
    | '\x7b' :: rest =>
      if depth ≤ 1 then none
      else match skipSpace rest with
        | '\x7d' :: rest => some (.obj [], rest)
        | rest => members fuel (depth - 1) [] rest
    | rest => (number? rest).map fun (n, rest) => (.num n, rest)

def items : (fuel depth : Nat) → List Json → List Char → Option (Json × List Char)
  | 0, _, _, _ => none
  | fuel + 1, depth, acc, s => do
    let (v, rest) ← value fuel depth s
    match skipSpace rest with
    | ',' :: rest => items fuel depth (v :: acc) rest
    | ']' :: rest => return (.arr (v :: acc).reverse, rest)
    | _ => none

def members : (fuel depth : Nat) → List (String × Json) → List Char → Option (Json × List Char)
  | 0, _, _, _ => none
  | fuel + 1, depth, acc, s =>
    match skipSpace s with
    | '"' :: rest => do
      let (key, rest) ← stringTail (rest.length + 1) [] rest
      match skipSpace rest with
      | ':' :: rest => do
        let (v, rest) ← value fuel depth rest
        let acc := (key, v) :: acc
        match skipSpace rest with
        | ',' :: rest => members fuel depth acc rest
        | '\x7d' :: rest => return (mkObj acc.reverse, rest)
        | _ => none
      | _ => none
    | _ => none

end

def parse? (text : String) : Option Json := do
  let s := text.toList
  let (v, rest) ← value (s.length + 1) 128 s
  if skipSpace rest = [] then some v else none

end LintDesk.Json
