import MiniLisp.Token.Basic

/-!
# Numerals

A numeral is a run of digits and dots with a suffix of letters.  The suffix `f`
makes a float, a single dot without suffix a plain number, and digits alone an
integer.  All other numerals are rejected: for their suffix, then for their dots,
then for their size.  A dot without any digit would write no number at all.
-/

namespace MiniLisp
namespace Numeral

/-- What is wrong with a numeral. -/
inductive Defect where
  | suffix
  | dots
  | range
  /-- The digits do not write a number. -/
  | malformed
  deriving DecidableEq, Repr

/-- The natural number written by the digits, dots left out. -/
def value (digits : List Char) : Nat :=
  Nat.ofDigitChars 10 (digits.filter Char.isDigit) 0

/-- The number of digits after the dot. -/
def places (digits : List Char) : Nat :=
  (digits.dropWhile Char.isDigit).length - 1

/-- The double written by digits with at most one dot. -/
def toDouble (digits : List Char) : Binary64 :=
  .ofDecimal (value digits) (places digits)

/-- The double written by digits and dots, if they write a number: there must be a
digit, and no second dot. -/
def toDouble? (digits : List Char) : Option Binary64 :=
  if digits.any Char.isDigit ∧ digits.count '.' ≤ 1 then some (toDouble digits) else none

/-- The integer written by digits, unless it is too large. -/
def toInt? (digits : List Char) : Option Int64 :=
  let n := value digits
  if (n : Int) ≤ Int64.maxValue.toInt then some (.ofNat n) else none

/-- The kind and the payload of a numeral. -/
def classify (digits suffix : List Char) : Except Defect (TokenKind × Value) :=
  if suffix ≠ [] ∧ suffix ≠ ['f'] then .error .suffix
  else if 1 < digits.count '.' then .error .dots
  else if suffix = [] ∧ digits.count '.' = 0 then
    match toInt? digits with
    | some n => .ok (.int, .int n)
    | none => .error .range
  else
    match toDouble? digits with
    | some x => .ok (if suffix = ['f'] then .float else .num, .float x)
    | none => .error .malformed

end Numeral
end MiniLisp
