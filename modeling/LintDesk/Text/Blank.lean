/-!
Character classes and case folding used on text: Unicode white space, trimming, and comparison up
to ASCII case.
-/

namespace LintDesk

/-- Unicode `White_Space`. -/
def isBlank (c : Char) : Bool :=
  let n := c.toNat
  (9 ≤ n && n ≤ 13) || n == 0x20 || n == 0x85 || n == 0xA0 || n == 0x1680 ||
    (0x2000 ≤ n && n ≤ 0x200A) || n == 0x2028 || n == 0x2029 || n == 0x202F || n == 0x205F ||
    n == 0x3000

/-- Whether nothing but white space is left of a line. -/
def isBlankLine (s : List Char) : Bool :=
  s.all isBlank

/-- Drops the characters at the end that satisfy `p`. -/
def trimEndWhere (p : Char → Bool) (s : List Char) : List Char :=
  (s.reverse.dropWhile p).reverse

/-- Equality up to the case of ASCII letters. -/
def sameIgnoringCase (a b : String) : Bool :=
  a.toList.map Char.toLower == b.toList.map Char.toLower

end LintDesk
