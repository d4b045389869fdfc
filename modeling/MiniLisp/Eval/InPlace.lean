import MiniLisp.Eval.Call
import MiniLisp.Scope.Forest

/-!
# Evaluation in the forest

Evaluation needs no more than a state with scopes, and that may be the forest as a
whole.  Names are then read and written in the scopes that bind them, and the call of a
lambda adds a scope to the forest, which is still there when the call has ended.
-/

namespace MiniLisp

/-- All scopes, and what has been printed and told so far. -/
structure World where
  forest : Forest
  console : Console

/-- A computation in a scope of the forest. -/
abbrev ForestM := ReaderT ScopeId (EStateM Stop World)

namespace ForestM

def chain : ForestM Chain := do
  return (← get).forest.chain (← read)

/-- Replace the forest by what an operation in the current scope gives, if it
succeeds. -/
def update (f : Forest → ScopeId → Except EvalError Forest) : ForestM Unit := fun e world =>
  match f world.forest e with
  | .ok forest => .ok () { world with forest }
  | .error error => .error (.failed error) world

def write (f : Console → Console) : ForestM Unit :=
  modify fun world => { world with console := f world.console }

/-- Add a scope inside the current one, bind parameters to arguments there, and run in
it. -/
def inside (params : List String) (args : List Value) (body : ForestM α) : ForestM α :=
  fun e world =>
    let scope := world.forest.next
    body scope { world with forest := (world.forest.child e).bindAll scope params args }

instance : Scoped ForestM where
  fail error := throw (.failed error)
  chain := chain
  define name v := update (·.define · name v)
  set name v := update (·.set · name v)
  print line := write (·.print line)
  tell event := write (·.tell event)
  inside := inside

/-- Call a function in the forest, with fuel for the given number of nested calls. -/
def call : Nat → CallerIn ForestM
  | 0 => fun _ _ => throw .outOfFuel
  | fuel + 1 => Eval.function (call fuel)

end ForestM
end MiniLisp
