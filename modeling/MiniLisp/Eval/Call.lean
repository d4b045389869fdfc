import MiniLisp.Eval.Arithmetic
import MiniLisp.Eval.Native

/-!
# Calling functions

To evaluate is to call.  A value in operand position is forced: a function is
called without arguments, in the scope of whoever forces it, and anything else is
its own result.  What each form does is written with the way to call the functions
inside it as a parameter, and for any state that has scopes.  `call` ties the knot,
with fuel for as many nested calls.
-/

namespace MiniLisp

/-- A way to call a function with arguments in the current scope. -/
abbrev CallerIn (m : Type → Type) := Function → List Value → m Value

abbrev Caller := CallerIn EvalM

namespace Eval

variable [Monad m] [Scoped m]

/-- Force a value. -/
def force (call : CallerIn m) : Value → m Value
  | .function f => call f []
  | v => pure v

/-- Force values in order. -/
def forceAll (call : CallerIn m) : List Value → m (List Value)
  | [] => pure []
  | v :: vs => do
      let v ← force call v
      let vs ← forceAll call vs
      return v :: vs

/-- Force an argument of a call, unless a lambda is passed. -/
def forceArg (call : CallerIn m) : Value → m Value
  | .function f => do
      match (← Scoped.chain).passed? f with
      | some lambda => return .function lambda
      | none => call f []
  | v => pure v

def forceArgs (call : CallerIn m) : List Value → m (List Value)
  | [] => pure []
  | v :: vs => do
      let v ← forceArg call v
      let vs ← forceArgs call vs
      return v :: vs

/-- Force a value for its effects. -/
def effect (call : CallerIn m) : Value → m Unit
  | .function f => do
      let _ ← call f []
      return ()
  | _ => pure ()

/-- Force the elements of a body in order; the result is that of the last. -/
def body (call : CallerIn m) : List Value → m Value
  | [] => pure .null
  | [v] => force call v
  | v :: vs => do
      effect call v
      body call vs

/-- The name in the position of a name to bind. -/
def targetName (form : Binder) (target : Value) : Except EvalError String :=
  match target with
  | .str name => .ok name
  | v => .error (.invalidTarget form v.kind)

/-- A definition stores its value unforced. -/
def define (target value : Value) : m Value := do
  let name ← Scoped.ofExcept (targetName .define target)
  Scoped.define name value
  return value

/-- An assignment forces its value, once it is known that the name is bound. -/
def set (call : CallerIn m) (target value : Value) : m Value := do
  let name ← Scoped.ofExcept (targetName .set target)
  match (← Scoped.chain).get? name with
  | none => Scoped.fail (.notDefined name)
  | some _ =>
      let value ← force call value
      Scoped.set name value
      return value

/-- Call what a name is bound to.  A name that is bound to data stands for that,
and the arguments are not looked at. -/
def callNamed (call : CallerIn m) (callee : String) (args : List Value) : m Value := do
  match ← Scoped.ofExcept ((← Scoped.chain).lookup callee) with
  | .function f =>
      let args ← forceArgs call args
      call f args
  | v => return v

def form (call : CallerIn m) : Form → m Value
  | .empty => pure .null
  | .arith op operands => do Scoped.ofExcept (op.combine (← forceAll call operands))
  | .unsupported op => Scoped.fail (.unsupportedOperator op)
  | .cond test yes no => do
      if (← force call test).isTruthy then force call yes else force call no
  | .define target value => define target value
  | .set target value => set call target value
  | .begin values => body call values
  | .list items => do return .list (← forceAll call items)
  | .call callee args => callNamed call callee args

/-- Tell about a wrong number of arguments. -/
def checkCount (expected got : Nat) : m Unit :=
  if expected = got then pure () else Scoped.tell (.argumentCount expected got)

/-- Call a lambda: its body runs in a new scope inside the caller's, where the
parameters are bound.  A wrong number of arguments does not hinder the call. -/
def lambda (call : CallerIn m) (params : List String) (values args : List Value) : m Value := do
  if (← Scoped.chain).hasRoom then
    checkCount params.length args.length
    Scoped.inside params args (body call values)
  else Scoped.fail .stackOverflow

/-- Call what a chain of names leads to. -/
def deferred (call : CallerIn m) (name : String) (args : List Value) : m Value := do
  match (← Scoped.chain).follow maxDepth name with
  | .data v => return v
  | .function f => call f args
  | .unbound name => Scoped.fail (.notBound name)
  | .tooLong => Scoped.fail .stackOverflow

/-- Call a function, given how to call the functions inside it. -/
def function (call : CallerIn m) : CallerIn m
  | .thunk _ f, _ => form call f
  | .lambda _ params values, args => lambda call params values args
  | .deferred _ name, args => deferred call name args
  | .native p, args => p.call args
  | .host _ _ _ (some answer), _ => pure answer
  | .host _ _ _ none, args => pure (.list args)

end Eval

/-- Call a function with fuel for the given number of nested calls. -/
def call : Nat → Caller
  | 0 => fun _ _ => throw .outOfFuel
  | fuel + 1 => Eval.function (call fuel)

/-- Force a value with the given fuel. -/
def force (fuel : Nat) (v : Value) : EvalM Value :=
  Eval.force (call fuel) v

/-- More nested calls than any run that ends can have on a machine. -/
def ampleFuel : Nat := 1000000000000000000

end MiniLisp
