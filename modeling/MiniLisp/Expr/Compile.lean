import MiniLisp.Expr.Basic

/-!
# Compiling expressions

Every expression and every name in reading position becomes a function with an
identity of its own.  Identities are numbers, given out in order of compilation;
the first free one is the state of `compile`.
-/

namespace MiniLisp

/-- Compilation, with the next identity to give out. -/
abbrev Compile := StateM Identity

def freshIdentity : Compile Identity :=
  fun next => (next, next + 1)

/-- The form of an arithmetic expression. -/
def Form.ofArith (op : Char) (operands : List Value) : Form :=
  match op with
  | '+' => .arith .add operands
  | '*' => .arith .mul operands
  | op => .unsupported op

mutual

def Element.compile : Element → Compile Value
  | .literal payload => pure payload
  | .name payload => do
      return .function (.deferred (← freshIdentity) (payload.asText?.getD ""))
  | .expr e => do return .function (← e.compile)

/-- Compile the element in the position of a name to bind: a name stands for
itself there. -/
def Element.compileTarget : Element → Compile Value
  | .literal payload => pure payload
  | .name payload => pure payload
  | .expr e => do return .function (← e.compile)

def Element.compileAll : List Element → Compile (List Value)
  | [] => pure []
  | e :: es => do return (← e.compile) :: (← Element.compileAll es)

def Expr.compile : Expr → Compile Function
  | .empty => do return .thunk (← freshIdentity) .empty
  | .arith op operands => do
      let form := Form.ofArith op (← Element.compileAll operands)
      return .thunk (← freshIdentity) form
  | .cond test yes no => do
      let form := Form.cond (← test.compile) (← yes.compile) (← no.compile)
      return .thunk (← freshIdentity) form
  | .define target value => do
      let form := Form.define (← target.compileTarget) (← value.compile)
      return .thunk (← freshIdentity) form
  | .set target value => do
      let form := Form.set (← target.compileTarget) (← value.compile)
      return .thunk (← freshIdentity) form
  | .lambda params body => do
      let body ← Element.compileAll body
      return .lambda (← freshIdentity) params body
  | .begin body => do
      let form := Form.begin (← Element.compileAll body)
      return .thunk (← freshIdentity) form
  | .list items => do
      let form := Form.list (← Element.compileAll items)
      return .thunk (← freshIdentity) form
  | .call callee args => do
      let form := Form.call callee (← Element.compileAll args)
      return .thunk (← freshIdentity) form

end

/-- Compile the expressions of a unit in order. -/
def compileAll : List Expr → Compile (List Function)
  | [] => pure []
  | e :: es => do return (← e.compile) :: (← compileAll es)

end MiniLisp
