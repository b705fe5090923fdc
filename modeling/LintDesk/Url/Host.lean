import LintDesk.Unicode.CaseFold
import LintDesk.Url.Percent

/-!
Host names of URLs. Special schemes take domain names and addresses; other schemes take nearly any
text.
-/

namespace LintDesk.Url

def forbiddenInHost (c : Char) : Bool :=
  c.toNat == 0 || "\t\n\r #/:<>?@[\\]^|".toList.contains c

def forbiddenInDomain (c : Char) : Bool :=
  forbiddenInHost c || c.toNat < 32 || c == '%' || c.toNat == 127

/-- How the step between thresholds of the punycode digits adapts. -/
def punycodeAdapt (delta count : Nat) (first : Bool) : Nat :=
  let delta := if first then delta / 700 else delta / 2
  go 40 0 (delta + delta / count)
where
  go : Nat → Nat → Nat → Nat
    | 0, k, _ => k
    | fuel + 1, k, delta =>
      if delta > 455 then go fuel (k + 36) (delta / 35) else k + 36 * delta / (delta + 38)

def punycodeDigit (n : Nat) : Char :=
  if n < 26 then Char.ofNat (97 + n) else Char.ofNat (22 + n)

def punycodeNumber : (fuel : Nat) → (q k bias : Nat) → List Char
  | 0, _, _, _ => []
  | fuel + 1, q, k, bias =>
    let t := if k ≤ bias then 1 else if k ≥ bias + 26 then 26 else k - bias
    if q < t then [punycodeDigit q]
    else punycodeDigit (t + (q - t) % (36 - t)) :: punycodeNumber fuel ((q - t) / (36 - t)) (k + 36) bias

/-- Writes the code points of a label from `n` on. -/
def punycodeTail (input : List Nat) : (fuel : Nat) → (n delta bias handled base : Nat) → List Char
  | 0, _, _, _, _, _ => []
  | fuel + 1, n, delta, bias, handled, base =>
    match (input.filter (n ≤ ·)).min? with
    | none => []
    | some m =>
      let delta := delta + (m - n) * (handled + 1)
      let pass := input.foldl (fun (acc : List Char × Nat × Nat × Nat) c =>
        let (out, delta, bias, handled) := acc
        if c < m then (out, delta + 1, bias, handled)
        else if c = m then
          (out ++ punycodeNumber 20 delta 36 bias, 0,
            punycodeAdapt delta (handled + 1) (handled = base), handled + 1)
        else acc) ([], delta, bias, handled)
      let (out, delta, bias, handled) := pass
      out ++ punycodeTail input fuel (m + 1) (delta + 1) bias handled base

def asciiLabel (label : List Char) : List Char :=
  if label.all (·.toNat < 128) then label
  else
    let basic := label.filter (·.toNat < 128)
    let points := label.map Char.toNat
    let head := if basic.isEmpty then [] else basic ++ ['-']
    "xn--".toList ++ head ++
      punycodeTail points (points.length + 1) 128 0 72 basic.length basic.length

def splitAtChar (sep : Char) : List Char → List (List Char)
  | [] => [[]]
  | c :: rest =>
    if c = sep then [] :: splitAtChar sep rest
    else match splitAtChar sep rest with
      | [] => [[c]]
      | part :: more => (c :: part) :: more

def asciiDomain (s : List Char) : List Char :=
  let folded := s.map fun c => Char.ofNat (Unicode.fold c.toNat)
  let dotted := folded.map fun c => if c.toNat = 0x3002 ∨ c.toNat = 0xFF0E ∨ c.toNat = 0xFF61 then '.' else c
  List.intercalate ['.'] ((splitAtChar '.' dotted).map asciiLabel)

/-- A number in decimal, octal or hexadecimal, as in addresses. -/
def addressNumber? (s : List Char) : Option Nat :=
  let digits (base : Nat) (ds : List Char) : Option Nat :=
    ds.foldlM (fun n c => (Json.hexDigit? c).bind fun d => if d < base then some (n * base + d) else none) 0
  match s with
  | [] => none
  | '0' :: 'x' :: rest => digits 16 rest
  | '0' :: 'X' :: rest => digits 16 rest
  | '0' :: d :: rest => digits 8 (d :: rest)
  | _ => digits 10 s

/-- The labels of a domain without the empty one after a dot at its end. -/
def significantLabels (s : List Char) : List (List Char) :=
  let labels := splitAtChar '.' s
  if labels.length > 1 ∧ labels.getLast? = some [] then labels.dropLast else labels

/-- Whether a domain has to be read as an address. -/
def endsInNumber (s : List Char) : Bool :=
  match (significantLabels s).getLast? with
  | some last => (!last.isEmpty && last.all Char.isDigit) || (addressNumber? last).isSome
  | none => false

/-- An address of four bytes. -/
def address4? (s : List Char) : Option (List Char) := do
  let labels := significantLabels s
  if labels.length > 4 then none
  let numbers ← labels.mapM addressNumber?
  let last := numbers.getLastD 0
  let front := numbers.dropLast
  if front.any (· > 255) ∨ last ≥ Nat.pow 256 (5 - numbers.length) then none
  let value := front.zipIdx.foldl (fun n (b, i) => n + b * Nat.pow 256 (3 - i)) last
  let bytes := [value / 0x100_0000, value / 0x1_0000 % 256, value / 256 % 256, value % 256]
  return List.intercalate ['.'] (bytes.map fun b => (toString b).toList)

/-- A group of an address of eight groups. -/
def group6? (s : List Char) : Option Nat :=
  if s.isEmpty ∨ s.length > 4 then none
  else s.foldlM (fun n c => (Json.hexDigit? c).map (n * 16 + ·)) 0

/-- A byte in decimal, without zeros in front. -/
def decimalByte? (s : List Char) : Option Nat :=
  if s.isEmpty ∨ s.length > 3 ∨ !s.all Char.isDigit ∨ (s.length > 1 ∧ s.head? = some '0') then none
  else
    let n := s.foldl (fun n c => n * 10 + (c.toNat - 48)) 0
    if n < 256 then some n else none

/-- The two groups of an address of four bytes that stands at the end of one of eight groups. -/
def groupsOf4? (s : List Char) : Option (List Nat) := do
  match ← (splitAtChar '.' s).mapM decimalByte? with
  | [a, b, c, d] => return [a * 256 + b, c * 256 + d]
  | _ => none

/-- The groups on one side of a gap; the last of them may be written as four bytes. -/
def groupList? (isEnd : Bool) (s : List Char) : Option (List Nat) :=
  if s.isEmpty then some []
  else
    let parts := splitAtChar ':' s
    let last := parts.getLastD []
    if isEnd ∧ last.contains '.' then do
      return (← parts.dropLast.mapM group6?) ++ (← groupsOf4? last)
    else parts.mapM group6?

/-- The eight groups of an address in brackets. -/
def groups6? (s : List Char) : Option (List Nat) :=
  let rec gap : (before : List Char) → List Char → Option (List Char × List Char)
    | _, [] => none
    | before, ':' :: ':' :: rest => some (before.reverse, rest)
    | before, c :: rest => gap (c :: before) rest
  match gap [] s with
  | some (front, back) => do
    let front ← groupList? false front
    let back ← groupList? true back
    let missing := 8 - (front.length + back.length)
    if missing = 0 then none else return front ++ List.replicate missing 0 ++ back
  | none => do
    let groups ← groupList? true s
    if groups.length = 8 then return groups else none

/-- The longest run of zero groups, as first index and length. -/
def longestZeroRun (groups : List Nat) : Nat × Nat :=
  let runs := (List.range groups.length).map fun i =>
    (i, ((groups.drop i).takeWhile (· = 0)).length)
  runs.foldl (fun best run => if run.2 > best.2 then run else best) (0, 0)

/-- An address of eight groups in brackets. -/
def address6? (s : List Char) : Option (List Char) := do
  let groups ← groups6? s
  let hex (ns : List Nat) : List Char := List.intercalate [':'] (ns.map fun n => Nat.toDigits 16 n)
  let (first, length) := longestZeroRun groups
  let body :=
    if length ≥ 2 then hex (groups.take first) ++ "::".toList ++ hex (groups.drop (first + length))
    else hex groups
  return '[' :: body ++ [']']

def host? (special : Bool) (s : List Char) : Option (List Char) :=
  match s with
  | '[' :: rest =>
    if rest.getLast? = some ']' then address6? rest.dropLast else none
  | _ =>
    if special then
      let domain := asciiDomain (textOfBytes (percentBytes s))
      if domain.isEmpty ∨ domain.any forbiddenInDomain then none
      else if endsInNumber domain then address4? domain
      else some domain
    else if s.any forbiddenInHost then none
    else some (percentEncode isControl s)

end LintDesk.Url
