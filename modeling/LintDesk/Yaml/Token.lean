import LintDesk.Yaml.Scalar

/-!
The tokens of a YAML text. Indentation becomes tokens that open and close blocks. A mapping key is
known only from the colon after it, so every token that could start a key is noted, and a colon
puts the key token in front of it.
-/

namespace LintDesk.Yaml

inductive Token where
  | version (major minor : Nat)
  | handleFor (handle start : String)
  | documentStart
  | documentEnd
  | blockSequence
  | blockMapping
  | blockEnd
  | flowSequence
  | flowSequenceEnd
  | flowMapping
  | flowMappingEnd
  | blockEntry
  | flowEntry
  | key
  | value
  | reference (name : String)
  | anchor (name : String)
  | tag (handle suffix : String)
  | scalar (text : String) (plain : Bool)
  deriving DecidableEq, Repr

/-- A place where a key may have started. A required one has to turn out to be a key. -/
structure KeyPlace where
  token : Nat
  required : Bool
  index : Nat
  line : Nat
  column : Nat
  deriving Repr

/-- What is known while tokens are found. There is one possible key for every open bracket and one
for the block around them. -/
structure Scan where
  cursor : Cursor
  tokens : Array Token := #[]
  indent : Int := -1
  outer : List Int := []
  keyAllowed : Bool := true
  keys : List (Option KeyPlace) := [none]

namespace Scan

def inFlow (s : Scan) : Bool :=
  1 < s.keys.length

def add (s : Scan) (t : Token) : Scan :=
  { s with tokens := s.tokens.push t }

def skip (s : Scan) (n : Nat) : Scan :=
  { s with cursor := s.cursor.advance n }

/-- Says whether a key may start next. -/
def allowKey (s : Scan) (allowed : Bool) : Scan :=
  { s with keyAllowed := allowed }

/-- Goes on to the next token, past blanks, comments and line breaks. Tabs count as blanks only
where no key can start. -/
def skipIdle : (fuel : Nat) → Scan → Scan
  | 0, s => s
  | fuel + 1, s =>
    let c := if s.cursor.index = 0 && s.cursor.sees '\uFEFF' then s.cursor.advance 1 else s.cursor
    let c := c.skipWhile fun x => x = ' ' || ((s.inFlow || !s.keyAllowed) && x = '\t')
    let c := if c.sees '#' then c.skipWhile (!isBreak ·) else c
    if c.rest.head?.any isBreak then
      skipIdle fuel { s with cursor := c.readBreak.2, keyAllowed := s.keyAllowed || !s.inFlow }
    else { s with cursor := c }

/-- Forgets possible keys that are too far away: a key is on one line and at most 1024 characters
long. -/
def dropStale? (s : Scan) : Option Scan := do
  let keys ← s.keys.mapM fun key =>
    match key with
    | none => some none
    | some k =>
      if k.line < s.cursor.line ∨ k.index + 1024 < s.cursor.index then
        if k.required then none else some none
      else some (some k)
  return { s with keys }

/-- Gives up the possible key of the innermost bracket. -/
def dropKey? (s : Scan) : Option Scan :=
  match s.keys with
  | some k :: rest => if k.required then none else some { s with keys := none :: rest }
  | _ => some s

/-- Notes that a key may start here. -/
def noteKey? (s : Scan) : Option Scan :=
  if s.keyAllowed then do
    let key : KeyPlace :=
      { token := s.tokens.size
        required := !s.inFlow && s.indent = (s.cursor.column : Int)
        index := s.cursor.index
        line := s.cursor.line
        column := s.cursor.column }
    let s ← s.dropKey?
    return { s with keys := some key :: s.keys.tail }
  else some s

/-- Opens a block at a column, unless one is open there. Its token goes to position `place`. -/
def openBlock (s : Scan) (column place : Nat) (t : Token) : Scan :=
  if !s.inFlow && s.indent < (column : Int) then
    { s with
      outer := s.indent :: s.outer
      indent := column
      tokens := s.tokens.insertIdxIfInBounds place t }
  else s

def closeBlocks (column : Int) : (outer : List Int) → Scan → Scan
  | [], s => s
  | before :: rest, s =>
    if !s.inFlow && column < s.indent then
      closeBlocks column rest { s.add .blockEnd with indent := before, outer := rest }
    else s

/-- Ends all blocks, as a document ends. -/
def endDocument? (s : Scan) : Option Scan :=
  ((closeBlocks (-1) s.outer s).dropKey?).map (·.allowKey false)

/-- A name; it has to have a character. -/
def name? (c : Cursor) : Option (String × Cursor) :=
  let (run, c) := c.takeWhile isNameChar
  if run.isEmpty then none else some (String.ofList run, c)

def anchorName? (c : Cursor) : Option (String × Cursor) := do
  let (name, c) ← name? c
  let next := c.rest.head?
  if endsWord next || next.any (fun x => "?:,]\x7d%@`".toList.contains x) then return (name, c)
  none

/-- The characters of tags. Brackets and commas belong to those in angle brackets only. -/
def isTagChar (verbatim : Bool) (c : Char) : Bool :=
  isNameChar c || ";/?:@&=+$.%!~*'()".toList.contains c || (verbatim && ",[]".toList.contains c)

/-- The number of bytes of the character that an escaped byte starts. -/
def byteCount? (n : Nat) : Option Nat :=
  if n < 0x80 then some 1
  else if 0xC0 ≤ n ∧ n < 0xE0 then some 2
  else if 0xE0 ≤ n ∧ n < 0xF0 then some 3
  else if 0xF0 ≤ n ∧ n < 0xF8 then some 4
  else none

/-- A byte written as a percent sign and two digits. -/
def escapedByte? : List Char → Option (Nat × List Char)
  | '%' :: a :: b :: rest => do
    let a ← Json.hexDigit? a
    let b ← Json.hexDigit? b
    return (a * 16 + b, rest)
  | _ => none

/-- The bytes that continue an escaped character. -/
def escapedTail? : (count : Nat) → List Char → Option (List Char)
  | 0, s => some s
  | count + 1, s => do
    let (n, rest) ← escapedByte? s
    if 0x80 ≤ n ∧ n < 0xC0 then escapedTail? count rest else none

/-- The characters of a tag. An escaped character outside ASCII never belongs to a known tag, and
a substitute stands for it. -/
def tagText? (verbatim : Bool) : (fuel : Nat) → List Char → List Char → Option (List Char × List Char)
  | 0, _, _ => none
  | fuel + 1, done, s =>
    match s with
    | [] => some (done.reverse, [])
    | c :: rest =>
      if !isTagChar verbatim c then some (done.reverse, s)
      else if c = '%' then do
        let (n, rest) ← escapedByte? s
        let count ← byteCount? n
        let rest ← escapedTail? (count - 1) rest
        tagText? verbatim fuel ((if count = 1 then Char.ofNat n else '\uFFFD') :: done) rest
      else tagText? verbatim fuel (c :: done) rest

/-- A tag's characters after `head`, together at least one. -/
def tagBody? (verbatim : Bool) (head : List Char) (c : Cursor) : Option (String × Cursor) := do
  let (text, rest) ← tagText? verbatim (c.rest.length + 1) [] c.rest
  if head.isEmpty && text.isEmpty then none
  return (String.ofList (head.drop 1 ++ text), c.advance (c.rest.length - rest.length))

/-- A handle: an exclamation mark and a name, with a second mark if it is a whole handle. -/
def handle? (c : Cursor) : Option (List Char × Cursor) :=
  if c.sees '!' then
    let (name, c) := (c.advance 1).takeWhile isNameChar
    if c.sees '!' then some ('!' :: name ++ ['!'], c.advance 1) else some ('!' :: name, c)
  else none

def tag? (inFlow : Bool) (c : Cursor) : Option (Token × Cursor) := do
  let (t, c) ←
    if c.peek? 1 = some '<' then do
      let (text, c) ← tagBody? true [] (c.advance 2)
      if !c.sees '>' then none
      pure (Token.tag "" text, c.advance 1)
    else do
      let (handle, c) ← handle? c
      if 1 < handle.length && handle.getLast? = some '!' then
        let (text, c) ← tagBody? false [] c
        pure (Token.tag (String.ofList handle) text, c)
      else
        let (text, c) ← tagBody? false handle c
        pure (if text = "" then Token.tag "" "!" else Token.tag "!" text, c)
  if endsWord c.rest.head? || (inFlow && c.sees ',') then return (t, c)
  none

/-- A number of a version, of at most nine digits. -/
def versionNumber? (c : Cursor) : Option (Nat × Cursor) :=
  let (n, count, _) := Json.digits c.rest
  if 1 ≤ count ∧ count ≤ 9 then some (n, c.advance count) else none

def directive? (c : Cursor) : Option (Token × Cursor) := do
  let (name, c) ← name? c
  if !endsWord c.rest.head? then none
  let c := c.skipWhile isPad
  let (t, c) ←
    match name with
    | "YAML" => do
      let (major, c) ← versionNumber? c
      if !c.sees '.' then none
      let (minor, c) ← versionNumber? (c.advance 1)
      pure (Token.version major minor, c)
    | "TAG" => do
      let (handle, c) ← handle? c
      if 1 < handle.length && handle.getLast? ≠ some '!' then none
      if !c.rest.head?.any isPad then none
      let (start, c) ← tagBody? true [] (c.skipWhile isPad)
      if !endsWord c.rest.head? then none
      pure (Token.handleFor (String.ofList handle) start, c)
    | _ => none
  let c := c.skipLineTail
  if endsLine c.rest.head? then return (t, c.readBreak.2) else none

def startsPlain (s : Scan) (c : Char) : Bool :=
  let next := s.cursor.peek? 1
  !(isPad c || isBreak c || "-?:,[]\x7b\x7d#&*!|>'\"%@`".toList.contains c) ||
    (c = '-' && !next.any isPad) ||
    (!s.inFlow && (c = '?' || c = ':') && !endsWord next)

/-- The colon after a key, or in front of a value without a key of its own. -/
def addValue? (s : Scan) : Option Scan := do
  let s ←
    match s.keys with
    | some k :: rest =>
      let s := { s with
        tokens := s.tokens.insertIdxIfInBounds k.token .key
        keys := none :: rest }
      some ((s.openBlock k.column k.token .blockMapping).allowKey false)
    | _ =>
      if s.inFlow then some (s.allowKey false)
      else if s.keyAllowed then
        some ((s.openBlock s.cursor.column s.tokens.size .blockMapping).allowKey true)
      else none
  return (s.add .value).skip 1

/-- A token that opens or continues a block: an item, or a key with a mark of its own. -/
def addBlockMark? (s : Scan) (blockToken mark : Token) : Option Scan := do
  let s ←
    if s.inFlow then some s
    else if s.keyAllowed then some (s.openBlock s.cursor.column s.tokens.size blockToken)
    else none
  return ((← s.dropKey?).add mark).skip 1

/-- Finds the next token; nothing inside at the end of the text. -/
def next? (s : Scan) : Option (Scan ⊕ Scan) := do
  let s := skipIdle (s.cursor.rest.length + 1) s
  let s ← s.dropStale?
  let s := closeBlocks s.cursor.column s.outer s
  let opening (s : Scan) (t : Token) : Option (Scan ⊕ Scan) := do
    let s ← s.noteKey?
    return .inr (({ s with keys := none :: s.keys }.allowKey true).add t |>.skip 1)
  let closing (s : Scan) (t : Token) : Option (Scan ⊕ Scan) := do
    let s ← s.dropKey?
    let keys := if s.inFlow then s.keys.tail else s.keys
    return .inr (({ s with keys }.allowKey false).add t |>.skip 1)
  let after : Token × Cursor → Scan → Scan ⊕ Scan := fun (t, c) s =>
    .inr ({ s with cursor := c }.add t)
  let c := s.cursor
  match c.rest with
  | [] => return .inl (← endDocument? s)
  | x :: _ =>
    let next := c.peek? 1
    if c.column = 0 && x = '%' then
      let s ← s.endDocument?
      return after (← directive? (c.advance 1)) s
    else if c.seesMarker '-' then return .inr (((← s.endDocument?).add .documentStart).skip 3)
    else if c.seesMarker '.' then return .inr (((← s.endDocument?).add .documentEnd).skip 3)
    else if x = '[' then opening s .flowSequence
    else if x = '\x7b' then opening s .flowMapping
    else if x = ']' then closing s .flowSequenceEnd
    else if x = '\x7d' then closing s .flowMappingEnd
    else if x = ',' then return .inr ((((← s.dropKey?).allowKey true).add .flowEntry).skip 1)
    else if x = '-' && endsWord next then
      return .inr ((← s.addBlockMark? .blockSequence .blockEntry).allowKey true)
    else if x = '?' && (s.inFlow || endsWord next) then
      return .inr ((← s.addBlockMark? .blockMapping .key).allowKey (!s.inFlow))
    else if x = ':' && (s.inFlow || endsWord next) then return .inr (← s.addValue?)
    else if x = '*' || x = '&' then
      let s ← s.noteKey?
      let (name, c) ← anchorName? (c.advance 1)
      return after (if x = '*' then .reference name else .anchor name, c) (s.allowKey false)
    else if x = '!' then
      let s ← s.noteKey?
      return after (← tag? s.inFlow c) (s.allowKey false)
    else if !s.inFlow && (x = '|' || x = '>') then
      let s ← s.dropKey?
      let (text, c) ← block? (x = '|') s.indent (c.advance 1)
      return after (.scalar (String.ofList text) false, c) (s.allowKey true)
    else if x = '\'' || x = '"' then
      let s ← s.noteKey?
      let (text, c) ← quoted? (x = '\'') (c.rest.length + 1) [] (c.advance 1)
      return after (.scalar (String.ofList text) false, c) (s.allowKey false)
    else if s.startsPlain x then
      let s ← s.noteKey?
      let (text, broken, c) ← plain? s.inFlow (s.indent + 1) (c.rest.length + 1) [] {} c
      return after (.scalar (String.ofList text) true, c) (s.allowKey broken)
    else none

def all? : (fuel : Nat) → Scan → Option (List Token)
  | 0, _ => none
  | fuel + 1, s => do
    match ← s.next? with
    | .inl s => return s.tokens.toList
    | .inr s => all? fuel s

end Scan

def tokens? (text : String) : Option (List Token) :=
  let rest := text.toList
  if rest.all isAllowed then Scan.all? (rest.length + 2) { cursor := { rest } } else none

end LintDesk.Yaml
