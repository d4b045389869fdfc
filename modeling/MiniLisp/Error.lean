import MiniLisp.Value.Basic

/-!
# Evaluation errors

An evaluation error ends the run it occurs in; nothing recovers from it inside
an expression.
-/

namespace MiniLisp

/-- The greatest depth of nested scopes, and the greatest number of names in a
chain of names. -/
def maxDepth : Nat := 10000

/-- The forms that bind a name. -/
inductive Binder where
  | define
  | set
  deriving DecidableEq, Repr

def Binder.name : Binder → String
  | .define => "define"
  | .set => "set"

/-- Why a built-in function fails. -/
inductive Complaint where
  | wrongCount (got : Nat)
  | notCountable (found : Kind)
  /-- There are more elements than an integer can count. -/
  | doesNotFit
  deriving DecidableEq, Repr

def Complaint.message : Complaint → String
  | .wrongCount got => "expected 1 argument, got " ++ toString got
  | .notCountable found => "expected a list or string, got " ++ found.name
  | .doesNotFit => "length does not fit in an int"

inductive EvalError where
  | notBound (name : String)
  /-- A definition of a name that its scope already binds. -/
  | alreadyDefined (name : String)
  /-- An assignment to a name that no scope in reach binds. -/
  | notDefined (name : String)
  /-- What stands in the place of a name is not a name. -/
  | invalidTarget (form : Binder) (found : Kind)
  | typeMismatch (op : Operator) (left right : Kind)
  | integerOverflow (op : Operator)
  | unsupportedOperator (op : Char)
  /-- Scopes are nested too deeply, or a chain of names is too long. -/
  | stackOverflow
  | native (p : Native) (complaint : Complaint)
  deriving DecidableEq, Repr

def EvalError.message : EvalError → String
  | .notBound name => "name not bound: " ++ name
  | .alreadyDefined name => name ++ " was already defined"
  | .notDefined name => "set being used on a name that hasn't been defined: " ++ name
  | .invalidTarget form found =>
      form.name ++ " expects an identifier as its first argument but got " ++ found.name
  | .typeMismatch op left right =>
      "cannot apply `" ++ op.symbol.toString ++ "` to " ++ left.name ++ " and " ++ right.name
  | .integerOverflow op => "integer overflow in `" ++ op.symbol.toString ++ "`"
  | .unsupportedOperator op => "arithmetic operator `" ++ op.toString ++ "` is not supported"
  | .stackOverflow => "maximum call depth of " ++ toString maxDepth ++ " exceeded"
  | .native p complaint => p.name ++ ": " ++ complaint.message

/-- Why a run ended without a value.  Running out of fuel says nothing about the
program: a run with more fuel may still go either way. -/
inductive Stop where
  | failed (e : EvalError)
  | outOfFuel
  deriving DecidableEq, Repr

def Stop.message : Stop → String
  | .failed e => e.message
  | .outOfFuel => "out of fuel"

end MiniLisp
