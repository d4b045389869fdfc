import MiniLisp.Scope.Chain

/-!
# The forest of scopes

Scopes form a forest: every scope but a root lies inside another one.  A scope is
known by its number, and it records the numbers of the scopes around it, from the
inside out.  A name is bound or overwritten in one scope.  What can be seen from a
scope is its chain, which may also be taken out of the forest as a whole, worked on,
and put back.
-/

namespace MiniLisp

abbrev ScopeId := Nat

structure Scope where
  bindings : Bindings
  /-- The enclosing scopes, from the inside out. -/
  ancestors : List ScopeId

structure Forest where
  scopes : Array Scope

namespace Forest

def empty : Forest := ⟨#[]⟩

def bindingsOf (f : Forest) (e : ScopeId) : Bindings :=
  match f.scopes[e]? with
  | some scope => scope.bindings
  | none => ∅

def ancestorsOf (f : Forest) (e : ScopeId) : List ScopeId :=
  match f.scopes[e]? with
  | some scope => scope.ancestors
  | none => []

def parent? (f : Forest) (e : ScopeId) : Option ScopeId :=
  (f.ancestorsOf e).head?

/-- The number of enclosing scopes. -/
def depth (f : Forest) (e : ScopeId) : Nat :=
  (f.ancestorsOf e).length

/-- A scope and those around it. -/
def path (f : Forest) (e : ScopeId) : List ScopeId :=
  e :: f.ancestorsOf e

/-- What code in a scope can see. -/
def chain (f : Forest) (e : ScopeId) : Chain :=
  ⟨f.bindingsOf e, (f.ancestorsOf e).map f.bindingsOf⟩

/-- Replace the bindings of a scope. -/
def write (f : Forest) (e : ScopeId) (bindings : Bindings) : Forest :=
  ⟨f.scopes.modify e fun scope => { scope with bindings }⟩

/-- Put back the chain of a scope. -/
def restore (f : Forest) (e : ScopeId) (c : Chain) : Forest :=
  ((f.path e).zip c.scopes).foldl (fun f (i, bindings) => f.write i bindings) f

/-- The value that a name has in a scope. -/
def get? (f : Forest) (e : ScopeId) (name : String) : Option Value :=
  (f.chain e).get? name

/-- The nearest scope that binds a name. -/
def binder? (f : Forest) (e : ScopeId) (name : String) : Option ScopeId :=
  (f.path e).find? fun s => (f.bindingsOf s).contains name

/-- One scope binds a name to a value, and all else is as it was. -/
def put (f : Forest) (s : ScopeId) (name : String) (v : Value) : Forest :=
  f.write s ((f.bindingsOf s).insert name v)

/-- Bind a name in a scope, whether or not it was bound there. -/
def bind (f : Forest) (e : ScopeId) (name : String) (v : Value) : Forest :=
  f.put e name v

/-- Bind a name that is new to a scope. -/
def define (f : Forest) (e : ScopeId) (name : String) (v : Value) : Except EvalError Forest :=
  if (f.bindingsOf e).contains name then .error (.alreadyDefined name)
  else .ok (f.put e name v)

/-- Overwrite the nearest binding of a name. -/
def set (f : Forest) (e : ScopeId) (name : String) (v : Value) : Except EvalError Forest :=
  match f.binder? e name with
  | some s => .ok (f.put s name v)
  | none => .error (.notDefined name)

/-- The number of the scope that is added next. -/
def next (f : Forest) : ScopeId :=
  f.scopes.size

/-- Add a scope without any around it. -/
def addRoot (f : Forest) (bindings : Bindings) : Forest :=
  ⟨f.scopes.push ⟨bindings, []⟩⟩

/-- A forest with an empty scope more inside the given one. -/
def child (f : Forest) (e : ScopeId) : Forest :=
  ⟨f.scopes.push ⟨∅, f.path e⟩⟩

/-- Add an empty scope inside the given one, unless it is too deep. -/
def addChild (f : Forest) (e : ScopeId) : Except EvalError Forest :=
  if f.depth e < maxDepth then .ok (f.child e)
  else .error .stackOverflow

/-- Bind parameters to arguments in a scope, in order. -/
def bindAll (f : Forest) (e : ScopeId) (params : List String) (args : List Value) : Forest :=
  (params.zip args).foldl (fun f (name, v) => f.bind e name v) f

end Forest
end MiniLisp
