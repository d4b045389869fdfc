import MiniLisp.Eval.Run

/-!
# Built-in functions

The functions of the standard environment, and that environment itself.
-/

namespace MiniLisp
namespace Native

/-- The only argument of a function that takes one. -/
def single (p : Native) : List Value → Except EvalError Value
  | [v] => .ok v
  | vs => .error (.native p (.wrongCount vs.length))

/-- A length as an integer. -/
def ofLength (n : Nat) : Except EvalError Value :=
  if (n : Int) ≤ Int64.maxValue.toInt then .ok (.int (.ofNat n))
  else .error (.native .length .doesNotFit)

/-- The number of elements of a list or of characters of a string. -/
def count : Value → Except EvalError Value
  | .list items => ofLength items.length
  | .str s => ofLength s.length
  | v => .error (.native .length (.notCountable v.kind))

/-- Call a built-in function.  What is printed is taken as it is: that it may not be
possible to write to the output is left out here. -/
def call [Monad m] [Scoped m] (p : Native) (args : List Value) : m Value :=
  match p with
  | .print => do
      Scoped.print (" ".intercalate (args.map Value.text))
      return .null
  | .length => Scoped.ofExcept (single p args >>= count)
  | .not => Scoped.ofExcept (do return .bool !(← single p args).isTruthy)

end Native

namespace Bindings

/-- The standard environment: three constants and the built-in functions. -/
def standard : Bindings :=
  let constants : Bindings :=
    ((∅ : Bindings).insert "true" (.bool true)).insert "false" (.bool false)
      |>.insert "null" .null
  Native.all.foldl (fun scope p => scope.insert p.name (.function (.native p))) constants

end Bindings
end MiniLisp
