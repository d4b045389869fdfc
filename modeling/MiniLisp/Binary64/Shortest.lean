import MiniLisp.Binary64.Basic

/-!
# The fewest decimal digits that read back

A double stands for every real number that rounds to it.  Among the decimals in
that interval, `shortest` finds one on the coarsest grid `10 ^ k`, and of two on
that grid the one nearer to the double; a tie goes to the larger.
-/

namespace MiniLisp

/-- The number `digits * 10 ^ exponent`. -/
structure Decimal where
  digits : Nat
  exponent : Int
  deriving DecidableEq, Repr

namespace Binary64

/-- The reals that round to a double, in quarter units: they lie between `lo`
and `hi`, and the ends belong to them when `closed`. -/
structure Interval where
  lo : Nat
  mid : Nat
  hi : Nat
  closed : Bool
  deriving DecidableEq, Repr

/-- The interval of a finite nonzero magnitude.  The gap below a power of two is
half the gap above it. -/
def interval (word : Nat) : Interval :=
  let gap := Nat.pow 2 (scaleOf word)
  let mid := 4 * unitsOf word
  let below := if word % exponentUnit = 0 ∧ exponentUnit < word then gap else 2 * gap
  { lo := mid - below, mid, hi := mid + 2 * gap, closed := word % 2 = 0 }

/-- Whether `num / den` quarter units lie in the interval. -/
def Interval.contains (i : Interval) (num den : Nat) : Bool :=
  if i.closed then i.lo * den ≤ num && num ≤ i.hi * den
  else i.lo * den < num && num < i.hi * den

/-- A multiple of `10 ^ k` in the interval: one of the two neighbours of the
middle, if any.  The grid step is `step / mult` quarter units. -/
def Interval.onGrid (i : Interval) (k : Int) : Option Nat :=
  let step := 4 * one * Nat.pow 10 k.toNat
  let mult := Nat.pow 10 (-k).toNat
  let down := i.mid * mult / step
  let up := down + 1
  let downIn := i.contains (down * step) mult
  let upIn := i.contains (up * step) mult
  if downIn && upIn then
    some (if 2 * (i.mid * mult) < (down + up) * step then down else up)
  else if downIn then some down
  else if upIn then some up
  else none

/-- Search the grids `10 ^ k, 10 ^ (k - 1), …` for the first that has a point in
the interval. -/
def Interval.search (i : Interval) : Nat → Int → Decimal
  | 0, k => ⟨i.mid * Nat.pow 10 (-k).toNat / (4 * one * Nat.pow 10 k.toNat), k⟩
  | tries + 1, k =>
      match i.onGrid k with
      | some d => ⟨d, k⟩
      | none => i.search tries (k - 1)

/-- A `k` with `10 ^ k` above the given number of units, and not far above:
`0.30103` is just over the logarithm of two. -/
def gridAbove (units : Nat) : Int :=
  (((units.log2 : Int) - 1073) * 30103).fdiv 100000 + 1

/-- The shortest decimal of a finite nonzero magnitude.  Seventeen digits always
suffice; the first grids tried may lie above the leading digit. -/
def shortest (word : Nat) : Decimal :=
  (interval word).search 20 (gridAbove (unitsOf word))

end Binary64
end MiniLisp
