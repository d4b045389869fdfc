import MiniLisp.Error
import Std.Data.TreeMap

/-!
# Chains of scopes

Code runs in a scope and sees the scopes around it.  A `Chain` is what there is to
see from a scope: its own bindings and those of the enclosing scopes, from the inside
out.  Evaluation can do with the chain of the scope it takes place in; that it comes
to the same as evaluation in the forest of all scopes is a theorem.
-/

namespace MiniLisp

/-- The names bound in one scope, with their values. -/
abbrev Bindings := Std.TreeMap String Value compare

structure Chain where
  inner : Bindings
  outer : List Bindings

namespace Chain

/-- A scope without any around it. -/
def root (bindings : Bindings) : Chain := ⟨bindings, []⟩

/-- The scopes from the inside out. -/
def scopes (c : Chain) : List Bindings :=
  c.inner :: c.outer

/-- The number of enclosing scopes. -/
def depth (c : Chain) : Nat :=
  c.outer.length

/-- The value of a name in the innermost scope that binds it. -/
def get? (c : Chain) (name : String) : Option Value :=
  c.scopes.findSome? fun scope => scope[name]?

def lookup (c : Chain) (name : String) : Except EvalError Value :=
  match c.get? name with
  | some v => .ok v
  | none => .error (.notBound name)

/-- Whether the innermost scope itself binds a name. -/
def containsLocal (c : Chain) (name : String) : Bool :=
  c.inner.contains name

/-- The names that the innermost scope itself binds, in order. -/
def localNames (c : Chain) : List String :=
  c.inner.keys

/-- Bind a name in the innermost scope, whether or not it was bound there. -/
def bind (c : Chain) (name : String) (v : Value) : Chain :=
  { c with inner := c.inner.insert name v }

/-- Bind a name that is new to the innermost scope.  It may hide one of an
enclosing scope. -/
def define (c : Chain) (name : String) (v : Value) : Except EvalError Chain :=
  if c.containsLocal name then .error (.alreadyDefined name) else .ok (c.bind name v)

/-- Overwrite the binding of a name in the innermost scope that has one. -/
def set (c : Chain) (name : String) (v : Value) : Except EvalError Chain :=
  if c.containsLocal name then .ok (c.bind name v)
  else
    match c.outer.findIdx? (·.contains name) with
    | some i => .ok { c with outer := c.outer.modify i (·.insert name v) }
    | none => .error (.notDefined name)

/-- Enter a new scope inside the innermost one. -/
def push (c : Chain) (bindings : Bindings) : Chain :=
  ⟨bindings, c.scopes⟩

/-- Leave the innermost scope; a scope without any around it is not left. -/
def pop (c : Chain) : Chain :=
  match c.outer with
  | [] => c
  | scope :: rest => ⟨scope, rest⟩

/-- Whether a new scope may be entered. -/
def hasRoom (c : Chain) : Bool :=
  c.depth < maxDepth

@[simp] theorem pop_push (c : Chain) (bindings : Bindings) :
    (c.push bindings).pop = c := rfl

@[simp] theorem depth_push (c : Chain) (bindings : Bindings) :
    (c.push bindings).depth = c.depth + 1 := rfl

@[simp] theorem depth_bind (c : Chain) (name : String) (v : Value) :
    (c.bind name v).depth = c.depth := rfl

theorem get?_bind (c : Chain) (name : String) (v : Value) (other : String) :
    (c.bind name v).get? other = if name = other then some v else c.get? other := by
  by_cases h : name = other <;>
    simp [get?, scopes, bind, List.findSome?_cons, Std.TreeMap.getElem?_insert, h]

end Chain

/-- Where a chain of names ends. -/
inductive Target where
  | data (v : Value)
  | function (f : Function)
  | unbound (name : String)
  /-- The chain has more names than may be followed. -/
  | tooLong

namespace Chain

/-- Follow a name to what it is bound to, and on as long as that is a name
again, over at most the given number of names. -/
def follow (c : Chain) : Nat → String → Target
  | 0, _ => .tooLong
  | hops + 1, name =>
      match c.get? name with
      | none => .unbound name
      | some (.function (.deferred _ next)) => c.follow hops next
      | some (.function f) => .function f
      | some v => .data v

/-- The lambda that is passed on uncalled when a function stands as an argument:
the function itself, or what the name that it reads is bound to. -/
def passed? (c : Chain) : Function → Option Function
  | .deferred _ name =>
      match c.get? name with
      | some (.function f) => if f.isLambda then some f else none
      | _ => none
  | f => if f.isLambda then some f else none

end Chain

namespace Bindings

/-- Bind parameters to arguments, in order.  A repeated name has its last
argument, and what is left over on either side is ignored. -/
def ofParams (params : List String) (args : List Value) : Bindings :=
  (params.zip args).foldl (fun scope (name, v) => scope.insert name v) ∅

end Bindings
end MiniLisp
