import MiniLisp.Binary64.Shortest

/-!
# Writing doubles

A double is written with its shortest digits.  A `Style` says for which
positions of the decimal point the digits are written out, and elsewhere an
exponent follows them.
-/

namespace MiniLisp
namespace Binary64

/-- Which numbers are written without an exponent: those whose decimal point
stands at a position in the range, counted from before the first digit. -/
structure Style where
  positional : Int → Bool

/-- Numbers shown to users never have an exponent. -/
def Style.plain : Style := ⟨fun _ => true⟩

/-- Numbers shown to developers have an exponent below `10 ^ -4` and from
`10 ^ 16` on. -/
def Style.inspected : Style := ⟨fun point => -3 ≤ point && point ≤ 16⟩

def zeros (n : Nat) : String :=
  "".pushn '0' n

/-- Digits written out with the decimal point at `point`; whole numbers end in
`.0`. -/
def writtenOut (digits : String) (point : Int) : String :=
  let n := digits.length
  if point ≤ 0 then "0." ++ zeros (-point).toNat ++ digits
  else if point < n then
    String.ofList (digits.toList.take point.toNat) ++ "." ++
      String.ofList (digits.toList.drop point.toNat)
  else digits ++ zeros (point.toNat - n) ++ ".0"

/-- One digit, the others after a point, then the exponent. -/
def withExponent (digits : String) (point : Int) : String :=
  let head := String.ofList (digits.toList.take 1)
  let tail := digits.toList.drop 1
  let fraction := if tail.isEmpty then "" else "." ++ String.ofList tail
  head ++ fraction ++ "e" ++ toString (point - 1)

def Style.decimal (style : Style) (d : Decimal) : String :=
  let digits := toString d.digits
  let point := digits.length + d.exponent
  if style.positional point then writtenOut digits point
  else withExponent digits point

def Style.write (style : Style) (x : Binary64) : String :=
  let sign := if x.isNegative then "-" else ""
  match x.datum with
  | .nan => "NaN"
  | .infinite _ => sign ++ "inf"
  | .finite _ units => sign ++ if units = 0 then "0.0" else style.decimal (shortest x.magnitude)

end Binary64
end MiniLisp
