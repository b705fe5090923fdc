import LintDesk.Unicode.Category
import LintDesk.Unicode.Script
import LintDesk.Unicode.Property
import LintDesk.Unicode.CaseFold
import LintDesk.Json.Parser

/-!
Sets of code points as increasing lists of disjoint ranges, both ends included.
-/

namespace LintDesk.Pattern

abbrev SymbolSet := List (Nat × Nat)

namespace SymbolSet

def top : Nat := 0x10FFFF

def has (s : SymbolSet) (n : Nat) : Bool :=
  s.any fun (a, b) => a ≤ n && n ≤ b

def single (n : Nat) : SymbolSet := [(n, n)]

/-- Joins neighbours in a list of ranges ordered by their first ends. -/
def coalesce : SymbolSet → SymbolSet
  | [] => []
  | (a, b) :: rest =>
    match coalesce rest with
    | [] => [(a, b)]
    | (c, d) :: tail => if c ≤ b + 1 then (a, max b d) :: tail else (a, b) :: (c, d) :: tail

def ofRanges (ranges : List (Nat × Nat)) : SymbolSet :=
  coalesce (ranges.mergeSort fun x y => x.1 ≤ y.1)

def union (s t : SymbolSet) : SymbolSet :=
  ofRanges (s ++ t)

/-- The points from `start` up to `last` that are in no range. -/
def gaps (last : Nat) : (start : Nat) → SymbolSet → SymbolSet
  | start, [] => if start ≤ last then [(start, last)] else []
  | start, (a, b) :: rest =>
    if start < a then (start, a - 1) :: gaps last (b + 1) rest else gaps last (b + 1) rest

def complement (s : SymbolSet) : SymbolSet :=
  gaps top 0 s

def inter (s t : SymbolSet) : SymbolSet :=
  ofRanges (s.flatMap fun (a, b) => t.filterMap fun (c, d) =>
    if max a c ≤ min b d then some (max a c, min b d) else none)

def diff (s t : SymbolSet) : SymbolSet :=
  inter s (complement t)

def symmDiff (s t : SymbolSet) : SymbolSet :=
  union (diff s t) (diff t s)

/-- Adds every point that differs from a member only by case. -/
def closeUnderCase (s : SymbolSet) : SymbolSet :=
  let letters := Unicode.foldedLetters.map fun n => (n, Unicode.fold n)
  let folded := letters.filterMap fun (n, f) => if has s n then some (f, f) else none
  let base := ofRanges (s ++ folded)
  ofRanges (base ++ letters.filterMap fun (n, f) => if has base f then some (n, n) else none)

/-- Adds the ASCII letters that differ from a member only by case. -/
def closeUnderAsciiCase (s : SymbolSet) : SymbolSet :=
  let pairs := (List.range 26).map fun k => (65 + k, 97 + k)
  ofRanges (s ++ pairs.flatMap fun (upper, lower) =>
    (if has s upper then [(lower, lower)] else []) ++
      if has s lower then [(upper, upper)] else [])

def hexNat (s : List Char) : Nat :=
  s.foldl (fun n c => n * 16 + (Json.hexDigit? c).getD 0) 0

/-- Reads ranges such as `41-5A 5F`. -/
def ofText (text : String) : SymbolSet :=
  let words := (text.split Char.isWhitespace).toList.map (·.toString.toList) |>.filter (· ≠ [])
  words.map fun word =>
    let first := word.takeWhile (· ≠ '-')
    let last := word.drop (first.length + 1)
    (hexNat first, hexNat (if last.isEmpty then first else last))

def row? (table : List (String × String)) (name : String) : Option String :=
  (table.find? fun (names, _) => (names.splitOn " ").contains name).map (·.2)

def category? (name : String) : Option SymbolSet :=
  match row? Unicode.categories name with
  | some ranges => some (ofText ranges)
  | none =>
    match row? Unicode.categoryGroups name with
    | some members => some (ofRanges ((members.splitOn " ").flatMap fun m =>
        ofText ((row? Unicode.categories m).getD "")))
    | none =>
      let surrogates : SymbolSet := [(0xD800, 0xDFFF)]
      let unassigned := complement (ofRanges
        (surrogates ++ Unicode.categories.flatMap fun (_, ranges) => ofText ranges))
      if name = "cn" ∨ name = "unassigned" then some unassigned
      else if name = "assigned" then some (complement unassigned)
      else if name = "c" ∨ name = "other" then
        some (ofRanges (unassigned ++ ["cc", "cf", "co"].flatMap fun m =>
          ofText ((row? Unicode.categories m).getD "")))
      else if name = "any" then some [(0, top)]
      else if name = "ascii" then some [(0, 127)]
      else none

def script? (name : String) : Option SymbolSet :=
  (row? Unicode.scripts name).map ofText

def property? (name : String) : Option SymbolSet :=
  (row? Unicode.properties name).map ofText

def digit : SymbolSet := (category? "nd").getD []

def space : SymbolSet := (property? "whitespace").getD []

/-- Letters, marks, decimal digits, connecting punctuation and joiners. -/
def word : SymbolSet :=
  ofRanges (["m", "nd", "pc"].flatMap (fun m => (category? m).getD []) ++
    (property? "alphabetic").getD [] ++ (property? "joincontrol").getD [])

def asciiWord : SymbolSet := [(48, 57), (65, 90), (95, 95), (97, 122)]

def asciiSpace : SymbolSet := [(9, 13), (32, 32)]

def asciiDigit : SymbolSet := [(48, 57)]

end SymbolSet

end LintDesk.Pattern
