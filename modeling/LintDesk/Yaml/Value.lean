import LintDesk.Yaml.Node

/-!
The JSON value of a YAML document. Plain scalars are null, booleans, numbers or text by their
form; standard tags force one of these. Keys are always text. Nodes nest at most 128 deep, and
aliases are followed at most a hundred times for every step of the document.
-/

namespace LintDesk.Yaml

def isNull (s : String) : Bool :=
  ["null", "Null", "NULL", "~"].contains s

def bool? (s : String) : Option Bool :=
  if ["true", "True", "TRUE"].contains s then some true
  else if ["false", "False", "FALSE"].contains s then some false
  else none

def digitsIn? (base : Nat) (s : List Char) : Option Nat :=
  if s.isEmpty then none
  else s.foldl (fun n c => do
    let n ← n
    let d ← Json.hexDigit? c
    if d < base then some (n * base + d) else none) (some 0)

/-- Whether a number has a zero in front of other digits, which makes it text. -/
def hasLeadingZero (s : List Char) : Bool :=
  let body := match s with
    | '-' :: rest => rest
    | '+' :: rest => rest
    | _ => s
  1 < body.length && body.head? = some '0' && body.all Char.isDigit

/-- The magnitude after an optional sign: with the mark of a base, or decimal. -/
def magnitude? (s body : List Char) : Option Nat :=
  let decimal := if hasLeadingZero s then none else digitsIn? 10 body
  match body with
  | '0' :: 'x' :: ds => digitsIn? 16 ds
  | '0' :: 'o' :: ds => digitsIn? 8 ds
  | '0' :: 'b' :: ds => digitsIn? 2 ds
  | _ => decimal

def int? (s : List Char) : Option Int :=
  match s with
  | '+' :: body => (magnitude? s body).map Int.ofNat
  | '-' :: body => (magnitude? s body).map fun n => -(n : Int)
  | _ => (magnitude? s s).map Int.ofNat

/-- The value of a whole number: one that fits 64 bits; the rest of those that fit 128 bits are
refused, and what is larger is no whole number. -/
inductive IntReading where
  | value (n : Int)
  | refused
  | other

def readInt (s : List Char) : IntReading :=
  match int? s with
  | none => .other
  | some n =>
    if -0x8000_0000_0000_0000 ≤ n ∧ n ≤ 0xFFFF_FFFF_FFFF_FFFF then .value n
    else if -0x8000_0000_0000_0000_0000_0000_0000_0000 ≤ n ∧
        n ≤ 0xFFFF_FFFF_FFFF_FFFF_FFFF_FFFF_FFFF_FFFF then .refused
    else .other

/-- The decimal after the sign of a floating-point number. -/
def decimal? (negative : Bool) (s : List Char) : Option UInt64 := do
  let (whole, wholeCount, rest) := Json.digits s
  let (fraction, places, rest) := match rest with
    | '.' :: tail => Json.digits tail
    | _ => (0, 0, rest)
  if wholeCount + places = 0 then none
  let exponent ← match rest with
    | [] => some 0
    | e :: tail =>
      if e = 'e' ∨ e = 'E' then
        match Json.exponentPart? tail with
        | some (n, []) => some n
        | _ => none
      else none
  Decimal.read? negative (whole * Nat.pow 10 places + fraction) (exponent - places)

/-- A floating-point number. What is not finite has no JSON value but null. -/
def float? (s : String) : Option Json :=
  let infinite := [".inf", ".Inf", ".INF"]
  if infinite.contains s || (infinite.map ("+" ++ ·)).contains s ||
    (infinite.map ("-" ++ ·)).contains s || [".nan", ".NaN", ".NAN"].contains s then some .null
  else
    let bits := match s.toList with
      | '+' :: body => decimal? false body
      | '-' :: body => decimal? true body
      | body => decimal? false body
    bits.map fun b => .num (.float b)

/-- The value of a plain scalar without a tag. -/
def plainValue? (s : String) : Option Json :=
  if s = "" ∨ isNull s then some .null
  else match bool? s with
    | some b => some (.bool b)
    | none =>
      match readInt s.toList with
      | .value n => some (.int n)
      | .refused => none
      | .other =>
        if hasLeadingZero s.toList then some (.str s) else some ((float? s).getD (.str s))

def standardTag (name : String) : String :=
  "tag:yaml.org,2002:" ++ name

/-- Whether a tag is one of the document's own; such nodes have no JSON value. -/
def isLocalTag (tag : Option String) : Bool :=
  tag.any fun t => t.toList.head? = some '!'

def scalarValue? (tag : Option String) (s : String) (plain : Bool) : Option Json :=
  match tag with
  | none => if plain then plainValue? s else some (.str s)
  | some t =>
    if t = standardTag "bool" then (bool? s).map .bool
    else if t = standardTag "int" then
      match readInt s.toList with
      | .value n => some (.int n)
      | _ => none
    else if t = standardTag "float" then float? s
    else if t = standardTag "null" then (if isNull s then some .null else none)
    else if isLocalTag tag then none
    else some (.str s)

/-- What is left of the aliases that may be followed. -/
abbrev Budget := StateT Nat Option

/-- The node itself, or the one an alias stands for. -/
def target (slots : List (Nat × Node)) : Node → Budget Node
  | .reference slot => do
    let left ← get
    if left = 0 then fun _ => none
    else
      set (left - 1)
      match slots.lookup slot with
      | some n => return n
      | none => fun _ => none
  | n => return n

def keyText (slots : List (Nat × Node)) (n : Node) : Budget String := do
  match ← target slots n with
  | .scalar _ text _ => return text
  | _ => fun _ => none

/-- The value of a node, with `depth` levels left below it. -/
def nodeValue (slots : List (Nat × Node)) : (depth : Nat) → Node → Budget Json
  | depth, n => do
    match ← target slots n with
    | .scalar mark text plain => fun left => (scalarValue? mark.tag text plain).map (·, left)
    | .reference _ => fun _ => none
    | .sequence mark items =>
      match depth with
      | 0 => fun _ => none
      | depth + 1 =>
        if isLocalTag mark.tag then fun _ => none
        else return .arr (← items.mapM (nodeValue slots depth))
    | .mapping mark entries =>
      match depth with
      | 0 => fun _ => none
      | depth + 1 =>
        if isLocalTag mark.tag then fun _ => none
        else
          return .mkObj (← entries.mapM fun (k, v) => do
            return (← keyText slots k, ← nodeValue slots depth v))

/-- Reads a text; one without a document is null. -/
def parse? (text : String) : Option Json := do
  match ← Node.parse? text with
  | none => return .null
  | some root =>
    let (value, _) ← (nodeValue root.anchored.reverse 128 root).run (100 * root.size)
    return value

end LintDesk.Yaml
