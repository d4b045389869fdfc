import MiniLisp.Eval.Call

/-!
# Programs

A program is what a source unit is compiled to.  To run it is to call its
expressions one after the other in the same scope.
-/

namespace MiniLisp

/-- The expressions of a source unit in order, compiled. -/
abbrev Program := List Function

namespace Program

/-- Run the expressions from the given index on; the result so far stands if
there are none. -/
def runFrom (fuel index : Nat) (last : Value) : Program → EvalM Value
  | [] => pure last
  | f :: fs => do
      EvalM.tell (.evaluating index)
      let v ← call fuel f []
      runFrom fuel (index + 1) v fs

/-- Run the expressions in order up to the first error.  The result is that of
the last one, or null. -/
def run (fuel : Nat) (p : Program) : EvalM Value :=
  runFrom fuel 0 .null p

end Program

end MiniLisp
