import MiniLisp.Scope.Chain
import MiniLisp.Event

/-!
# Runs

What evaluation needs to do to the state that it works on is little, and it is the
same for every kind of state: `Scoped` lists it.  A run in the sense of this module
has no more state than it can see: it reads and writes the chain of scopes it takes
place in, prints, and tells about its work.  All of that is kept when the run fails.
-/

namespace MiniLisp

/-- What has been printed and told so far. -/
structure Console where
  output : String
  events : Array Event

namespace Console

def empty : Console := ⟨"", #[]⟩

def print (c : Console) (line : String) : Console :=
  { c with output := c.output ++ line ++ "\n" }

def tell (c : Console) (e : Event) : Console :=
  { c with events := c.events.push e }

/-- The lines of a log read at some level. -/
def log (c : Console) (level : Level) : List String :=
  (c.events.toList.filter (level.shows ·.level)).map Event.line

def tellAll (c : Console) (es : List Event) : Console :=
  es.foldl tell c

end Console

/-- What evaluation does to the state that it works on. -/
class Scoped (m : Type → Type) where
  fail : EvalError → m α
  /-- What can be seen from the current scope. -/
  chain : m Chain
  /-- Bind a name that is new to the current scope. -/
  define : String → Value → m Unit
  /-- Overwrite the nearest binding of a name. -/
  set : String → Value → m Unit
  print : String → m Unit
  tell : Event → m Unit
  /-- Run in a new scope inside the current one, where parameters are bound to
  arguments.  The scope is left in the end, whether the run fails or not. -/
  inside : List String → List Value → m α → m α

def Scoped.ofExcept [Monad m] [Scoped m] : Except EvalError α → m α
  | .ok v => pure v
  | .error e => fail e

/-- The state of a run. -/
structure Run where
  chain : Chain
  console : Console

abbrev EvalM := EStateM Stop Run

namespace EvalM

def fail (e : EvalError) : EvalM α :=
  throw (.failed e)

def chain : EvalM Chain := do
  return (← get).chain

/-- Replace the chain by what an operation on it gives, if it succeeds. -/
def update (f : Chain → Except EvalError Chain) : EvalM Unit := fun run =>
  match f run.chain with
  | .ok chain => .ok () { run with chain }
  | .error e => .error (.failed e) run

def tell (e : Event) : EvalM Unit :=
  modify fun run => { run with console := run.console.tell e }

def print (line : String) : EvalM Unit :=
  modify fun run => { run with console := run.console.print line }

/-- Run in a new scope inside the current one.  The scope is left in the end,
whether the run fails or not. -/
def inside (bindings : Bindings) (body : EvalM α) : EvalM α := fun run =>
  match body { run with chain := run.chain.push bindings } with
  | .ok v run => .ok v { run with chain := run.chain.pop }
  | .error stop run => .error stop { run with chain := run.chain.pop }

instance : Scoped EvalM where
  fail := fail
  chain := chain
  define name v := update (·.define name v)
  set name v := update (·.set name v)
  print := print
  tell := tell
  inside params args := inside (.ofParams params args)

abbrev ofExcept : Except EvalError α → EvalM α :=
  Scoped.ofExcept

end EvalM
end MiniLisp
