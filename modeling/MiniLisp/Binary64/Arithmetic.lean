import MiniLisp.Binary64.Basic

/-!
# Sums and products of doubles

The exact sum or product of two finite doubles is a ratio of units; the result
is that ratio, rounded once.  A NaN operand is passed on, the left one first.
-/

namespace MiniLisp
namespace Binary64

/-- A magnitude with its sign as an integer. -/
def signed (negative : Bool) (units : Nat) : Int :=
  if negative then -(units : Int) else units

/-- The sum of two finite numbers.  An exact zero is negative only if both
operands are. -/
def addFinite (s : Bool) (a : Nat) (t : Bool) (b : Nat) : Binary64 :=
  let sum := signed s a + signed t b
  if sum = 0 then ofUnits (s && t) 0 1 else ofUnits (sum < 0) sum.natAbs 1

def add (x y : Binary64) : Binary64 :=
  match x.datum, y.datum with
  | .nan, _ => x
  | _, .nan => y
  | .infinite s, .infinite t => if s = t then x else invalid
  | .infinite _, .finite _ _ => x
  | .finite _ _, .infinite _ => y
  | .finite s a, .finite t b => addFinite s a t b

/-- The product of an infinity and a number of the given units. -/
def mulInfinite (negative : Bool) (units : Nat) : Binary64 :=
  if units = 0 then invalid else infinity negative

def mul (x y : Binary64) : Binary64 :=
  match x.datum, y.datum with
  | .nan, _ => x
  | _, .nan => y
  | .infinite s, .infinite t => infinity (s != t)
  | .infinite s, .finite t b => mulInfinite (s != t) b
  | .finite s a, .infinite t => mulInfinite (s != t) a
  | .finite s a, .finite t b => ofUnits (s != t) (a * b) one

instance : Add Binary64 := ⟨add⟩
instance : Mul Binary64 := ⟨mul⟩

end Binary64
end MiniLisp
