/-!
JSON values. Whole numbers that fit a signed or an unsigned 64-bit word stay whole; every other
number is a double, held by its bits so that values can be compared. Objects that are read or
merged have their keys in increasing order, each key once; a record that is written keeps the
order of its fields.
-/

namespace LintDesk

inductive Number where
  | int (n : Int)
  | float (bits : UInt64)
  deriving DecidableEq, Repr

inductive Json where
  | null
  | bool (b : Bool)
  | num (n : Number)
  | str (s : String)
  | arr (items : List Json)
  | obj (fields : List (String × Json))
  deriving Repr, BEq, Inhabited

/-- A finite map from strings, as a list of pairs in increasing order of the keys. -/
abbrev Dict (α : Type) := List (String × α)

namespace Dict

variable {α : Type}

def find? (key : String) : Dict α → Option α
  | [] => none
  | (k, v) :: rest => if k = key then some v else find? key rest

def has (key : String) (d : Dict α) : Bool :=
  (find? key d).isSome

/-- Stores a value, replacing the one the key had. -/
def insert (key : String) (value : α) : Dict α → Dict α
  | [] => [(key, value)]
  | (k, v) :: rest =>
    if key < k then (key, value) :: (k, v) :: rest
    else if k = key then (key, value) :: rest
    else (k, v) :: insert key value rest

def erase (key : String) (d : Dict α) : Dict α :=
  d.filter fun entry => entry.1 ≠ key

/-- The entries of `overrides` on top of those of `base`. -/
def override (base overrides : Dict α) : Dict α :=
  overrides.foldl (fun d entry => insert entry.1 entry.2 d) base

/-- Builds a map; of repeated keys the last wins. -/
def ofPairs (pairs : List (String × α)) : Dict α :=
  override [] pairs

end Dict

namespace Json

def int (n : Int) : Json := .num (.int n)

def nat (n : Nat) : Json := .num (.int n)

def mkObj (fields : List (String × Json)) : Json :=
  .obj (Dict.ofPairs fields)

def orNull (f : α → Json) : Option α → Json
  | none => .null
  | some a => f a

def strings (items : List String) : Json :=
  .arr (items.map .str)

def fields? : Json → Option (Dict Json)
  | .obj fields => some fields
  | _ => none

def items? : Json → Option (List Json)
  | .arr items => some items
  | _ => none

def string? : Json → Option String
  | .str s => some s
  | _ => none

def bool? : Json → Option Bool
  | .bool b => some b
  | _ => none

def intIn? (low high : Int) : Json → Option Int
  | .num (.int n) => if low ≤ n ∧ n ≤ high then some n else none
  | _ => none

def natBelow? (bound : Nat) : Json → Option Nat
  | .num (.int n) => if 0 ≤ n ∧ n < bound then some n.toNat else none
  | _ => none

def word? : Json → Option Nat := natBelow? UInt64.size

def nat32? : Json → Option Nat := natBelow? UInt32.size

def int32? : Json → Option Int := intIn? (-0x8000_0000) 0x7FFF_FFFF

/-- The field of an object; nothing for other values. -/
def get? (key : String) : Json → Option Json
  | .obj fields => Dict.find? key fields
  | _ => none

def strings? : Json → Option (List String)
  | .arr items => items.mapM string?
  | _ => none

end Json

end LintDesk
