/-!
Decimal text of doubles. A double is written with the fewest digits that read back as the same
double, and of those the nearest; positional up to sixteen places before the point and five after
it, and with an exponent beyond that.
-/

namespace LintDesk.Decimal

/-- A positive double as a whole significand times a power of two, with the note whether the
next smaller double is only half a step away. -/
structure Binary where
  significand : Nat
  exponent : Int
  narrowBelow : Bool
  deriving Repr, DecidableEq

/-- Splits the bits of a finite double, sign aside. -/
def Binary.ofBits (bits : UInt64) : Binary :=
  let n := bits.toNat
  let fraction : Nat := n % 0x10_0000_0000_0000
  let field : Nat := (n / 0x10_0000_0000_0000) % 0x800
  if field = 0 then ⟨fraction, -1074, false⟩
  else ⟨fraction + 0x10_0000_0000_0000, Int.ofNat field - 1075, fraction = 0 ∧ field > 1⟩

/-- Scales `n · 2^e` to a fraction. -/
def scaled (n : Nat) (e : Int) : Nat × Nat :=
  if e ≥ 0 then (n * Nat.pow 2 e.toNat, 1) else (n, Nat.pow 2 (-e).toNat)

/-- The least `k` from `start` on with `num / den < 10 ^ k`. -/
def magnitude (num den : Nat) : (fuel : Nat) → (start : Int) → Int
  | 0, k => k
  | fuel + 1, k =>
    let below :=
      if k ≥ 0 then num < den * Nat.pow 10 k.toNat else num * Nat.pow 10 (-k).toNat < den
    if below then k else magnitude num den fuel (k + 1)

/-- A decimal of `digits · 10 ^ exponent`. -/
structure Scientific where
  digits : Nat
  exponent : Int
  deriving Repr, DecidableEq

/-- The candidate with `count` digits, if one lies in the interval of reals that round to the
double. -/
def candidate (b : Binary) (top : Int) (count : Nat) : Option Scientific :=
  let place : Int := top - count
  -- quarter steps: the interval is from `4m - 2` (or `4m - 1`) to `4m + 2`
  let grid (n : Nat) : Nat × Nat :=
    let (num, den) := scaled n (b.exponent - 2)
    if place ≥ 0 then (num, den * Nat.pow 10 place.toNat)
    else (num * Nat.pow 10 (-place).toNat, den)
  let (vNum, den) := grid (4 * b.significand)
  let (lowNum, _) := grid (4 * b.significand - (if b.narrowBelow then 1 else 2))
  let (highNum, _) := grid (4 * b.significand + 2)
  let closed := b.significand % 2 = 0
  let inside (d : Nat) : Bool :=
    if closed then lowNum ≤ d * den ∧ d * den ≤ highNum else lowNum < d * den ∧ d * den < highNum
  let down := vNum / den
  let up := down + 1
  let nearDown := 2 * (vNum - down * den) < den ∨
    (2 * (vNum - down * den) = den ∧ down % 2 = 0)
  match inside down && down ≠ 0, inside up with
  | true, true => some ⟨if nearDown then down else up, place⟩
  | true, false => some ⟨down, place⟩
  | false, true => some ⟨up, place⟩
  | false, false => none

/-- Moves zeros at the end of the digits into the exponent. -/
def dropZeros : (fuel : Nat) → Scientific → Scientific
  | 0, s => s
  | fuel + 1, s =>
    if s.digits ≠ 0 ∧ s.digits % 10 = 0 then dropZeros fuel ⟨s.digits / 10, s.exponent + 1⟩ else s

/-- The shortest decimal that reads back as the positive double `b`. -/
def shortest (b : Binary) : Scientific :=
  let (num, den) := scaled b.significand b.exponent
  let top := magnitude num den 700 (-330)
  let found := (List.range 17).findSome? fun i => candidate b top (i + 1)
  dropZeros 20 (found.getD ⟨0, 0⟩)

def Scientific.text (s : Scientific) : String :=
  let ds := (Nat.toDigits 10 s.digits)
  let len : Int := ds.length
  let point := len + s.exponent
  let zeros (n : Int) : List Char := List.replicate n.toNat '0'
  let out : List Char :=
    if 0 ≤ s.exponent ∧ point ≤ 16 then ds ++ zeros s.exponent ++ ['.', '0']
    else if 0 < point ∧ point ≤ 16 then ds.take point.toNat ++ ['.'] ++ ds.drop point.toNat
    else if -5 < point ∧ point ≤ 0 then ['0', '.'] ++ zeros (-point) ++ ds
    else
      let power := (toString (point - 1)).toList
      match ds with
      | [d] => d :: 'e' :: power
      | d :: rest => d :: '.' :: rest ++ ['e'] ++ power
      | [] => []
  String.ofList out

def text (bits : UInt64) : String :=
  let negative := bits ≥ 0x8000000000000000
  let magnitude := bits &&& 0x7FFFFFFFFFFFFFFF
  let body := if magnitude = 0 then "0.0" else (shortest (Binary.ofBits magnitude)).text
  if negative then "-" ++ body else body

/-- Reads `digits · 10 ^ exponent` to the nearest double; nothing if that is infinite. -/
def read? (negative : Bool) (digits : Nat) (exponent : Int) : Option UInt64 :=
  let length : Int := (Nat.toDigits 10 digits).length
  let value : Option Float :=
    if digits = 0 ∨ length + exponent < -400 then some 0
    else if length + exponent > 400 then none
    else
      let x := if exponent ≥ 0 then Float.ofScientific digits false exponent.toNat
        else Float.ofScientific digits true (-exponent).toNat
      if x.isInf then none else some x
  value.map fun x => if negative then (-x).toBits else x.toBits

end LintDesk.Decimal
