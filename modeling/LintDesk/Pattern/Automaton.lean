import LintDesk.Pattern.SymbolSet

/-!
Patterns over symbols, and the machine that runs them. A pattern is compiled to a list of
instructions; the machine advances all alternatives together, one symbol at a time, and keeps them
in order of preference, so a search takes time proportional to the text and finds the leftmost
match, and among those at one place the one the pattern prefers.
-/

namespace LintDesk.Pattern

/-- Conditions on a position. -/
inductive Look where
  | start
  | finish
  | lineStart
  | lineFinish
  /-- A line start or finish where CR counts as a terminator too. -/
  | lineStartCr
  | lineFinishCr
  | wordBoundary (ascii : Bool)
  | notWordBoundary (ascii : Bool)
  | wordStart (ascii : Bool)
  | wordFinish (ascii : Bool)
  | wordStartHalf (ascii : Bool)
  | wordFinishHalf (ascii : Bool)
  deriving DecidableEq, Repr

namespace Look

/-- Whether the condition holds between two neighbouring symbols, of which either may be
missing. -/
def holds (words asciiWords : SymbolSet) (before after : Option Nat) : Look → Bool
  | start => before.isNone
  | finish => after.isNone
  | lineStart => before.isNone || before == some 10
  | lineFinish => after.isNone || after == some 10
  | lineStartCr => before.isNone || before == some 10 || (before == some 13 && after != some 10)
  | lineFinishCr => after.isNone || after == some 13 || (after == some 10 && before != some 13)
  | wordBoundary ascii => isWord ascii before != isWord ascii after
  | notWordBoundary ascii => isWord ascii before == isWord ascii after
  | wordStart ascii => !isWord ascii before && isWord ascii after
  | wordFinish ascii => isWord ascii before && !isWord ascii after
  | wordStartHalf ascii => !isWord ascii before
  | wordFinishHalf ascii => !isWord ascii after
where
  isWord (ascii : Bool) (n : Option Nat) : Bool :=
    n.any ((if ascii then asciiWords else words).has ·)

end Look

inductive Node where
  | empty
  | never
  | symbol (set : SymbolSet)
  | look (condition : Look)
  | seq (first second : Node)
  | either (preferred other : Node)
  /-- At least `least` and at most `most` times, as often as possible if `greedy`. -/
  | many (body : Node) (least : Nat) (most : Option Nat) (greedy : Bool)
  deriving Repr, Inhabited

namespace Node

def concat (nodes : List Node) : Node :=
  nodes.foldr seq empty

/-- Any of them, the first preferred. -/
def anyOf : List Node → Node
  | [] => never
  | [n] => n
  | n :: rest => either n (anyOf rest)

/-- Whether the pattern matches the empty text at some position. -/
def matchesEmpty : Node → Bool
  | empty => true
  | never => false
  | symbol _ => false
  | look _ => true
  | seq a b => a.matchesEmpty && b.matchesEmpty
  | either a b => a.matchesEmpty || b.matchesEmpty
  | many body least _ _ => least == 0 || body.matchesEmpty

/-- Number of instructions the pattern compiles to, at most. -/
def size : Node → Nat
  | empty => 1
  | never => 1
  | symbol _ => 1
  | look _ => 1
  | seq a b => a.size + b.size
  | either a b => a.size + b.size + 1
  | many body least most _ =>
    match most with
    | none => (body.size + 1) * (least + 1) + 1
    | some m => (body.size + 1) * (max m 1)

end Node

/-- One instruction; targets are indices into the program. -/
inductive Instr where
  | accept
  | fail
  | read (set : SymbolSet) (next : Nat)
  | check (condition : Look) (next : Nat)
  | fork (preferred other : Nat)
  deriving Repr, Inhabited

structure Program where
  code : Array Instr
  entry : Nat
  deriving Repr

namespace Program

def emit (code : Array Instr) (i : Instr) : Nat × Array Instr :=
  (code.size, code.push i)

/-- A fork that tries `body` first if `greedy` and `skip` first otherwise. -/
def branch (greedy : Bool) (body skip : Nat) : Instr :=
  if greedy then .fork body skip else .fork skip body

/-- `n` mandatory copies in front of `next`. -/
def copies (body : Nat → Array Instr → Nat × Array Instr) :
    (n next : Nat) → Array Instr → Nat × Array Instr
  | 0, next, code => (next, code)
  | n + 1, next, code =>
    let (after, code) := copies body n next code
    body after code

/-- Up to `n` further copies in front of `next`, each of which may end the repetition. -/
def optionals (body : Nat → Array Instr → Nat × Array Instr) (greedy : Bool) :
    (n next : Nat) → Array Instr → Nat × Array Instr
  | 0, next, code => (next, code)
  | n + 1, next, code =>
    let (after, code) := optionals body greedy n next code
    let (enter, code) := body after code
    emit code (branch greedy enter next)

/-- One or more copies in front of `next`. -/
def loop (body : Nat → Array Instr → Nat × Array Instr) (greedy : Bool) (next : Nat)
    (code : Array Instr) : Nat × Array Instr :=
  let (again, code) := emit code .fail
  let (enter, code) := body again code
  (enter, code.setIfInBounds again (branch greedy enter next))

/-- Compiles a pattern in front of the instruction `next`; returns where it starts. -/
def compile : Node → (next : Nat) → Array Instr → Nat × Array Instr
  | .empty, next, code => (next, code)
  | .never, _, code => emit code .fail
  | .symbol set, next, code => emit code (.read set next)
  | .look condition, next, code => emit code (.check condition next)
  | .seq a b, next, code =>
    let (second, code) := compile b next code
    compile a second code
  | .either a b, next, code =>
    let (first, code) := compile a next code
    let (second, code) := compile b next code
    emit code (.fork first second)
  | .many body least most greedy, next, code =>
    match most with
    | some m =>
      let (rest, code) := optionals (compile body) greedy (m - least) next code
      copies (compile body) (min least m) rest code
    | none =>
      match least with
      | 0 =>
        if body.matchesEmpty then
          let (enter, code) := loop (compile body) greedy next code
          emit code (branch greedy enter next)
        else
          let (again, code) := emit code .fail
          let (enter, code) := compile body again code
          (again, code.setIfInBounds again (branch greedy enter next))
      | n + 1 =>
        let (last, code) := loop (compile body) greedy next code
        copies (compile body) n last code

def ofNode (node : Node) : Program :=
  let (accept, code) := emit #[] .accept
  let (entry, code) := compile node accept code
  ⟨code, entry⟩

/-- An alternative under way: the instruction it waits at and where its match started. -/
structure Thread where
  pc : Nat
  start : Nat
  deriving Repr, DecidableEq

/-- Follows instructions that read nothing, in order of preference. `seen` holds the instructions
already reached at this position. -/
def follow (p : Program) (holds : Look → Bool) (start : Nat) :
    (fuel : Nat) → (stack : List Nat) → (seen : Array Bool) → (reached : List Thread) →
      Array Bool × List Thread
  | 0, _, seen, reached => (seen, reached)
  | _ + 1, [], seen, reached => (seen, reached)
  | fuel + 1, pc :: stack, seen, reached =>
    if seen.getD pc true then follow p holds start fuel stack seen reached
    else
      let seen := seen.setIfInBounds pc true
      match p.code.getD pc .fail with
      | .fail => follow p holds start fuel stack seen reached
      | .accept => follow p holds start fuel stack seen (⟨pc, start⟩ :: reached)
      | .read _ _ => follow p holds start fuel stack seen (⟨pc, start⟩ :: reached)
      | .check condition next =>
        follow p holds start fuel (if holds condition then next :: stack else stack) seen reached
      | .fork a b => follow p holds start fuel (a :: b :: stack) seen reached

/-- The threads after reading `c`, each with the target it moved to, and the match found on the
way; threads less preferred than a match are given up. -/
def advance (p : Program) (c : Option Nat) (position : Nat) :
    List Thread → (moved : List Thread) → List Thread × Option (Nat × Nat)
  | [], moved => (moved.reverse, none)
  | t :: rest, moved =>
    match p.code.getD t.pc .fail with
    | .accept => (moved.reverse, some (t.start, position))
    | .read set next =>
      if c.any set.has then advance p c position rest (⟨next, t.start⟩ :: moved)
      else advance p c position rest moved
    | _ => advance p c position rest moved

/-- Runs the machine from `position` on. -/
def run (p : Program) (holds : Option Nat → Option Nat → Look → Bool) (anchored : Bool) :
    (before : Option Nat) → (position : Nat) → (moved : List Thread) →
      (found : Option (Nat × Nat)) → List Nat → Option (Nat × Nat)
  | before, position, moved, found, input =>
    let after := input.head?
    let fuel := 3 * p.code.size + 3
    let start := if found.isNone && (!anchored || position == 0) then [(⟨p.entry, position⟩ : Thread)]
      else []
    let step := fun (acc : Array Bool × List Thread) (t : Thread) =>
      follow p (holds before after) t.start fuel [t.pc] acc.1 acc.2
    let (_, reached) := (moved ++ start).foldl step (Array.replicate p.code.size false, [])
    let (moved, here) := advance p after position reached.reverse []
    let found := here <|> found
    match input with
    | [] => found
    | c :: rest =>
      if moved.isEmpty && (found.isSome || anchored) then found
      else run p holds anchored (some c) (position + 1) moved found rest

/-- The leftmost match in a text, as first and last position. -/
def find? (p : Program) (input : List Nat) : Option (Nat × Nat) :=
  let words := SymbolSet.word
  run p (Look.holds words SymbolSet.asciiWord) false none 0 [] none input

def isMatch (p : Program) (input : List Nat) : Bool :=
  (run p (Look.holds [] SymbolSet.asciiWord) false none 0 [] none input).isSome

end Program

end LintDesk.Pattern
