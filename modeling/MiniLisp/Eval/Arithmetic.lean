import MiniLisp.Binary64.Arithmetic
import MiniLisp.Error
import MiniLisp.Value.Text

/-!
# Arithmetic

Integers are added and multiplied exactly, and a result that does not fit into
64 bits is an error.  With a float the result is a float.  Other kinds of values
have no sum or product, except that a sum which starts with a string joins the
texts of its operands.
-/

namespace MiniLisp
namespace Operator

def onInts (op : Operator) (a b : Int) : Int :=
  match op with
  | .add => a + b
  | .mul => a * b

def onFloats (op : Operator) (x y : Binary64) : Binary64 :=
  match op with
  | .add => x + y
  | .mul => x * y

/-- Whether an integer fits into 64 bits. -/
def fits (n : Int) : Bool :=
  Int64.minValue.toInt ≤ n && n ≤ Int64.maxValue.toInt

/-- Apply an operator to two values. -/
def apply (op : Operator) (a b : Value) : Except EvalError Value :=
  match a, b with
  | .int a, .int b =>
      let n := op.onInts a.toInt b.toInt
      if fits n then .ok (.int (.ofInt n)) else .error (.integerOverflow op)
  | .float x, .float y => .ok (.float (op.onFloats x y))
  | .int a, .float y => .ok (.float (op.onFloats (.ofInt a.toInt) y))
  | .float x, .int b => .ok (.float (op.onFloats x (.ofInt b.toInt)))
  | a, b => .error (.typeMismatch op a.kind b.kind)

/-- Apply an operator to a sequence of values from left to right, starting with
the first.  One value alone is its own result, whatever its kind. -/
def fold (op : Operator) : List Value → Except EvalError Value
  | [] => .ok .null
  | v :: vs => vs.foldlM op.apply v

/-- The value of an arithmetic expression. -/
def combine (op : Operator) (vs : List Value) : Except EvalError Value :=
  match op, vs with
  | .add, [] => .ok (.int 0)
  | .add, .str _ :: _ => .ok (.str (String.join (vs.map Value.text)))
  | op, vs => op.fold vs

end Operator
end MiniLisp
