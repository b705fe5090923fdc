import LintDesk.Yaml.Token

/-!
The tree of nodes of a YAML document. An alias names the slot of the anchor it stands for; a name
that is given to a second node takes a new slot.
-/

namespace LintDesk.Yaml

/-- What stands in front of a node: a tag, and the slot of its anchor. -/
structure Mark where
  tag : Option String := none
  slot : Option Nat := none
  deriving DecidableEq, Repr

inductive Node where
  | scalar (mark : Mark) (text : String) (plain : Bool)
  | reference (slot : Nat)
  | sequence (mark : Mark) (items : List Node)
  | mapping (mark : Mark) (entries : List (Node × Node))
  deriving Repr, Inhabited

namespace Node

def empty : Node := .scalar {} "" true

def slot? : Node → Option Nat
  | scalar mark _ _ => mark.slot
  | reference _ => none
  | sequence mark _ => mark.slot
  | mapping mark _ => mark.slot

mutual

/-- The number of steps that walk through the node: one for a leaf, two around the content of the
others. -/
def size : Node → Nat
  | scalar .. => 1
  | reference _ => 1
  | sequence _ items => 2 + sizeOfItems items
  | mapping _ entries => 2 + sizeOfEntries entries

def sizeOfItems : List Node → Nat
  | [] => 0
  | item :: rest => size item + sizeOfItems rest

def sizeOfEntries : List (Node × Node) → Nat
  | [] => 0
  | (key, value) :: rest => size key + size value + sizeOfEntries rest

end

/-- The node with its own slot, if it has one. -/
def ownSlot (n : Node) : List (Nat × Node) :=
  match n.slot? with
  | some slot => [(slot, n)]
  | none => []

mutual

/-- The anchored nodes with their slots, from the start of the document on. -/
def anchored : Node → List (Nat × Node)
  | scalar mark text plain => ownSlot (scalar mark text plain)
  | reference _ => []
  | sequence mark items => ownSlot (sequence mark items) ++ anchoredItems items
  | mapping mark entries => ownSlot (mapping mark entries) ++ anchoredEntries entries

def anchoredItems : List Node → List (Nat × Node)
  | [] => []
  | item :: rest => anchored item ++ anchoredItems rest

def anchoredEntries : List (Node × Node) → List (Nat × Node)
  | [] => []
  | (key, value) :: rest => anchored key ++ anchored value ++ anchoredEntries rest

end

end Node

/-- What a document can refer to: tag handles, and the anchors so far. -/
structure Names where
  handles : List (String × String) := []
  anchors : List (String × Nat) := []
  deriving Repr

namespace Names

/-- The handles that need no directive. -/
def standardHandles : List (String × String) :=
  [("!", "!"), ("!!", "tag:yaml.org,2002:")]

def tag? (n : Names) (handle suffix : String) : Option String :=
  if handle = "" then some suffix
  else ((n.handles ++ standardHandles).lookup handle).map (· ++ suffix)

/-- Gives an anchor a slot: the number of the names before it. -/
def bind (n : Names) (name : String) : Nat × Names :=
  let slot := n.anchors.length
  (slot, { n with anchors := (name, slot) :: n.anchors.filter (·.1 ≠ name) })

end Names

/-- Reading nodes from tokens, with the names met so far. -/
abbrev Reader := StateT (Names × List Token) Option

namespace Reader

def peek : Reader (Option Token) := do return (← get).2.head?

def skip : Reader Unit := modify fun (n, ts) => (n, ts.tail)

def refuse : Reader α := fun _ => none

/-- Goes on if the next token is `t`. -/
def accept (t : Token) : Reader Bool := do
  if (← peek) = some t then
    skip
    return true
  return false

def sees (ts : List Token) : Reader Bool := do
  return (← peek).any ts.contains

def separator : Reader Unit := do
  unless ← accept .flowEntry do refuse

def anchor : Reader (Option Nat) := do
  match ← peek with
  | some (.anchor name) =>
    skip
    let (names, ts) ← get
    let (slot, names) := names.bind name
    set (names, ts)
    return some slot
  | _ => return none

def tag : Reader (Option String) := do
  match ← peek with
  | some (.tag handle suffix) =>
    skip
    match (← get).1.tag? handle suffix with
    | some t => return some t
    | none => refuse
  | _ => return none

/-- An anchor and a tag, in either order. -/
def mark : Reader Mark := do
  match ← anchor with
  | some slot => return { slot, tag := ← tag }
  | none =>
    match ← tag with
    | some t => return { tag := some t, slot := ← anchor }
    | none => return {}

/-- A node of which only the mark is written. -/
def noContent (m : Mark) : Reader Node :=
  if m.tag.isSome || m.slot.isSome then return .scalar m "" true else refuse

mutual

/-- A node. In blocks, `block`; where a sequence may stand without more indentation than the key
before it, `flush`. -/
def node (block flush : Bool) : (fuel : Nat) → Reader Node
  | 0 => refuse
  | fuel + 1 => do
    if let some (.reference name) ← peek then
      skip
      match (← get).1.anchors.lookup name with
      | some slot => return .reference slot
      | none => refuse
    else
      let m ← mark
      match ← peek with
      | some (.scalar text plain) =>
        skip
        return .scalar (if m.tag = some "!" then { m with tag := none } else m) text plain
      | some .flowSequence =>
        skip
        return .sequence m (← flowItems true fuel)
      | some .flowMapping =>
        skip
        return .mapping m (← flowEntries true fuel)
      | some .blockEntry =>
        if flush then return .sequence m (← flushItems fuel) else noContent m
      | some .blockSequence =>
        if block then
          skip
          return .sequence m (← blockItems fuel)
        else noContent m
      | some .blockMapping =>
        if block then
          skip
          return .mapping m (← blockEntries fuel)
        else noContent m
      | _ => noContent m
termination_by fuel => (fuel, 0)

/-- A node, or an empty one in front of any of the tokens. -/
def nodeUnless (ts : List Token) (block flush : Bool) (fuel : Nat) : Reader Node := do
  if ← sees ts then return .empty else node block flush fuel
termination_by (fuel, 1)

def blockItems : (fuel : Nat) → Reader (List Node)
  | 0 => refuse
  | fuel + 1 => do
    if ← accept .blockEntry then
      let item ← nodeUnless [.blockEntry, .blockEnd] true false fuel
      return item :: (← blockItems fuel)
    else if ← accept .blockEnd then return []
    else refuse
termination_by fuel => (fuel, 0)

/-- The items of a sequence that has no block of its own. -/
def flushItems : (fuel : Nat) → Reader (List Node)
  | 0 => refuse
  | fuel + 1 => do
    if ← accept .blockEntry then
      let item ← nodeUnless [.blockEntry, .key, .value, .blockEnd] true false fuel
      return item :: (← flushItems fuel)
    else return []
termination_by fuel => (fuel, 0)

def blockEntries : (fuel : Nat) → Reader (List (Node × Node))
  | 0 => refuse
  | fuel + 1 => do
    if ← accept .key then
      let key ← nodeUnless [.key, .value, .blockEnd] true true fuel
      let value ←
        if ← accept .value then nodeUnless [.key, .value, .blockEnd] true true fuel
        else pure .empty
      return (key, value) :: (← blockEntries fuel)
    else if ← accept .blockEnd then return []
    else refuse
termination_by fuel => (fuel, 0)

/-- The items of a sequence in brackets up to its end. A key makes a mapping of one entry. -/
def flowItems (first : Bool) : (fuel : Nat) → Reader (List Node)
  | 0 => refuse
  | fuel + 1 => do
    if ← accept .flowSequenceEnd then return []
    unless first do separator
    if ← accept .key then
      let key ←
        if ← sees [.value, .flowEntry, .flowSequenceEnd] then do
          skip
          pure Node.empty
        else node false false fuel
      let value ←
        if ← accept .value then nodeUnless [.flowEntry, .flowSequenceEnd] false false fuel
        else pure .empty
      return .mapping {} [(key, value)] :: (← flowItems false fuel)
    else if ← accept .flowSequenceEnd then return []
    else
      let item ← node false false fuel
      return item :: (← flowItems false fuel)
termination_by fuel => (fuel, 0)

/-- The entries of a mapping in braces up to its end. -/
def flowEntries (first : Bool) : (fuel : Nat) → Reader (List (Node × Node))
  | 0 => refuse
  | fuel + 1 => do
    if ← accept .flowMappingEnd then return []
    unless first do separator
    if ← accept .key then
      let key ← nodeUnless [.value, .flowEntry, .flowMappingEnd] false false fuel
      let value ←
        if ← accept .value then nodeUnless [.flowEntry, .flowMappingEnd] false false fuel
        else pure .empty
      return (key, value) :: (← flowEntries false fuel)
    else if ← accept .flowMappingEnd then return []
    else
      let key ← node false false fuel
      return (key, .empty) :: (← flowEntries false fuel)
termination_by fuel => (fuel, 0)

end

/-- The directives in front of a document: at most one version, and each handle once. -/
def directives (version : Bool) : (fuel : Nat) → Reader Bool
  | 0 => refuse
  | fuel + 1 => do
    match ← peek with
    | some (.version major minor) =>
      if version || major ≠ 1 || (minor ≠ 1 && minor ≠ 2) then refuse
      skip
      let _ ← directives true fuel
      return true
    | some (.handleFor handle start) =>
      let (names, ts) ← get
      if (names.handles.lookup handle).isSome then refuse
      set ({ names with handles := (handle, start) :: names.handles }, ts.tail)
      let _ ← directives version fuel
      return true
    | _ => return false

/-- The only document of a text; nothing inside if there is none. -/
def document (fuel : Nat) : Reader (Option Node) := do
  let directed ← directives false fuel
  let root ←
    if ← accept .documentStart then
      let n ← get
      if n.2.isEmpty || (← sees [.documentStart, .documentEnd]) then pure Node.empty
      else match n.2.head? with
        | some (.version ..) => refuse
        | some (.handleFor ..) => refuse
        | _ => node true false fuel
    else if directed then refuse
    else if (← get).2.isEmpty then return none
    else node true false fuel
  modify fun (n, ts) => (n, ts.dropWhile (· = .documentEnd))
  if (← get).2.isEmpty then return some root else refuse

end Reader

/-- The root of a text with at most one document. -/
def Node.parse? (text : String) : Option (Option Node) := do
  let ts ← tokens? text
  let (root, _) ← (Reader.document (2 * ts.length + 2)).run ({}, ts)
  return root

end LintDesk.Yaml
