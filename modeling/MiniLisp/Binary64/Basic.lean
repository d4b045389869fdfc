/-!
# Double precision numbers

A `Binary64` is the 64-bit word of an IEEE 754 double.  Every finite double is
a whole multiple of `2 ^ -1074`, so its magnitude is a natural number of such
units, and rounding a ratio of units to the nearest double is integer division.
Nothing in this file depends on the arithmetic of the machine.
-/

namespace MiniLisp

/-- A double, given by its word.  Two doubles are equal exactly when their
words are, so `0.0` and `-0.0` differ and a NaN equals itself. -/
structure Binary64 where
  bits : UInt64
  deriving DecidableEq, Repr, Inhabited

namespace Binary64

/-- What a word stands for.  A finite number is `±units * 2 ^ -1074`. -/
inductive Datum where
  | nan
  | infinite (negative : Bool)
  | finite (negative : Bool) (units : Nat)
  deriving DecidableEq, Repr

/-- The number of units in `1.0`. -/
def one : Nat := Nat.pow 2 1074

/-- The place of the exponent in a word, above the 52 bits of the fraction. -/
def exponentUnit : Nat := 0x10000000000000

/-- The place of the sign in a word. -/
def signUnit : Nat := 0x8000000000000000

/-- The word of the infinite magnitude; larger magnitudes are NaNs. -/
def infinityWord : Nat := 2047 * exponentUnit

def isNegative (x : Binary64) : Bool :=
  signUnit ≤ x.bits.toNat

/-- The word without its sign bit. -/
def magnitude (x : Binary64) : Nat :=
  x.bits.toNat % signUnit

/-- The binary exponent of a word's magnitude, counted from the subnormals. -/
def scaleOf (word : Nat) : Nat :=
  word / exponentUnit - 1

/-- The units of a finite word: a significand below `2 ^ 53`, shifted by the
exponent.  The subnormals have exponent zero and no hidden bit. -/
def unitsOf (word : Nat) : Nat :=
  (word - scaleOf word * exponentUnit) * Nat.pow 2 (scaleOf word)

def datum (x : Binary64) : Datum :=
  if x.magnitude < infinityWord then .finite x.isNegative (unitsOf x.magnitude)
  else if x.magnitude = infinityWord then .infinite x.isNegative
  else .nan

def isNaN (x : Binary64) : Bool :=
  infinityWord < x.magnitude

/-- Put a sign in front of a magnitude. -/
def ofMagnitude (negative : Bool) (word : Nat) : Binary64 :=
  ⟨.ofNat (if negative then signUnit + word else word)⟩

def infinity (negative : Bool) : Binary64 :=
  ofMagnitude negative infinityWord

/-- The NaN that a literal stands for. -/
def nan : Binary64 := ⟨0x7ff8000000000000⟩

/-- The NaN that an operation without a value gives, such as the difference of
two infinities.  It carries a sign bit, so it is not `nan`. -/
def invalid : Binary64 := ⟨0xfff8000000000000⟩

/-- The quotient of two naturals, rounded to the nearest natural; a tie goes to
the even neighbour. -/
def divNearestEven (num den : Nat) : Nat :=
  let q := num / den
  let twice := 2 * (num % den)
  if twice < den then q
  else if den < twice then q + 1
  else q + q % 2

/-- The magnitude nearest to `num / den` units.  A significand that rounds up
to `2 ^ 53` carries into the exponent, and what is too large is infinite. -/
def nearestWord (num den : Nat) : Nat :=
  let scale := (num / den).log2 - 52
  min infinityWord (scale * exponentUnit + divNearestEven num (den * Nat.pow 2 scale))

/-- The double nearest to `±num / den` units. -/
def ofUnits (negative : Bool) (num den : Nat) : Binary64 :=
  ofMagnitude negative (nearestWord num den)

/-- The double nearest to an integer. -/
def ofInt (n : Int) : Binary64 :=
  ofUnits (n < 0) (n.natAbs * one) 1

/-- The double nearest to `digits / 10 ^ places`. -/
def ofDecimal (digits places : Nat) : Binary64 :=
  ofUnits false (digits * one) (Nat.pow 10 places)

end Binary64
end MiniLisp
