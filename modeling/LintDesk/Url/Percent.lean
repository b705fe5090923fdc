import LintDesk.Json.Parser

/-!
Percent-encoding: bytes outside a set of safe characters are written as `%` and two hexadecimal
digits.
-/

namespace LintDesk.Url

def upperHex (n : Nat) : Char :=
  if n < 10 then Char.ofNat (48 + n) else Char.ofNat (55 + n)

def encodeByte (b : UInt8) : List Char :=
  ['%', upperHex (b.toNat / 16), upperHex (b.toNat % 16)]

def utf8Bytes (c : Char) : List UInt8 :=
  (String.singleton c).toUTF8.toList

/-- Encodes the characters for which `escape` holds. -/
def percentEncode (escape : Char → Bool) (s : List Char) : List Char :=
  s.flatMap fun c => if escape c then (utf8Bytes c).flatMap encodeByte else [c]

/-- Control characters and everything beyond ASCII. -/
def isControl (c : Char) : Bool :=
  c.toNat < 32 || c.toNat > 126

def inFragment (c : Char) : Bool :=
  isControl c || c == ' ' || c == '"' || c == '<' || c == '>' || c == '\x60'

def inPath (c : Char) : Bool :=
  inFragment c || c == '#' || c == '?' || c == '\x7b' || c == '\x7d'

def inUserInfo (c : Char) : Bool :=
  inPath c || c == '/' || c == ':' || c == ';' || c == '=' || c == '@' || c == '[' || c == '\\' ||
    c == ']' || c == '^' || c == '|'

/-- What is encoded in a file name that becomes a path segment. -/
def inSegment (c : Char) : Bool :=
  inPath c || c == '/' || c == '%' || c == '\\'

/-- What is encoded in queries; special schemes encode the apostrophe too. -/
def inQuery (special : Bool) (c : Char) : Bool :=
  isControl c || c == ' ' || c == '"' || c == '#' || c == '<' || c == '>' ||
    (special && c == Char.ofNat 39)

/-- Turns percent-encoded bytes back; a percent sign without two digits stays. -/
def percentBytes : List Char → List UInt8
  | '%' :: a :: b :: rest =>
    match Json.hexDigit? a, Json.hexDigit? b with
    | some x, some y => UInt8.ofNat (x * 16 + y) :: percentBytes rest
    | _, _ => 37 :: percentBytes (a :: b :: rest)
  | c :: rest => utf8Bytes c ++ percentBytes rest
  | [] => []
termination_by s => s.length

/-- How many bytes a character that starts with `b` has, and which values its second byte may
take. -/
def lead? (b : Nat) : Option (Nat × Nat × Nat) :=
  if b < 0x80 then some (1, 0, 0)
  else if 0xC2 ≤ b ∧ b ≤ 0xDF then some (2, 0x80, 0xBF)
  else if b = 0xE0 then some (3, 0xA0, 0xBF)
  else if b = 0xED then some (3, 0x80, 0x9F)
  else if 0xE1 ≤ b ∧ b ≤ 0xEF then some (3, 0x80, 0xBF)
  else if b = 0xF0 then some (4, 0x90, 0xBF)
  else if 0xF1 ≤ b ∧ b ≤ 0xF3 then some (4, 0x80, 0xBF)
  else if b = 0xF4 then some (4, 0x80, 0x8F)
  else none

/-- The bytes at the start that belong to one character, and whether they make it complete. -/
def sequenceLength (b : Nat) (rest : List Nat) : Nat × Bool :=
  match lead? b with
  | none => (1, false)
  | some (count, low, high) =>
    let fits (index : Nat) (x : Nat) : Bool :=
      if index = 0 then low ≤ x && x ≤ high else 0x80 ≤ x && x ≤ 0xBF
    let good := ((rest.take (count - 1)).zipIdx.takeWhile fun (x, i) => fits i x).length
    (good + 1, good + 1 == count)

def sequenceChar (bytes : List Nat) : Char :=
  match bytes with
  | [a] => Char.ofNat a
  | [a, b] => Char.ofNat ((a - 0xC0) * 64 + (b - 0x80))
  | [a, b, c] => Char.ofNat (((a - 0xE0) * 64 + (b - 0x80)) * 64 + (c - 0x80))
  | [a, b, c, d] =>
    Char.ofNat ((((a - 0xF0) * 64 + (b - 0x80)) * 64 + (c - 0x80)) * 64 + (d - 0x80))
  | _ => '\uFFFD'

/-- Decodes UTF-8, each maximal broken part as one replacement character. -/
def decodeBytes : (fuel : Nat) → List Nat → List Char
  | 0, _ => []
  | _, [] => []
  | fuel + 1, b :: rest =>
    let (length, complete) := sequenceLength b rest
    let c := if complete then sequenceChar (b :: rest.take (length - 1)) else '\uFFFD'
    c :: decodeBytes fuel (rest.drop (length - 1))

def textOfBytes (bytes : List UInt8) : List Char :=
  decodeBytes bytes.length (bytes.map UInt8.toNat)

def isUtf8 : (fuel : Nat) → List Nat → Bool
  | 0, s => s.isEmpty
  | _, [] => true
  | fuel + 1, b :: rest =>
    let (length, complete) := sequenceLength b rest
    complete && isUtf8 fuel (rest.drop (length - 1))

end LintDesk.Url
