import MiniLisp.Scope.Chain

/-!
# Values made by a host

A host program describes the values that it hands to the interpreter.  Building
the value gives an identity to every function in the description, so that two
descriptions never build the same function.
-/

namespace MiniLisp

inductive HostValue where
  | data (v : Value)
  | list (items : List HostValue)
  /-- A lambda or another function that gives a fixed answer, or without one its
  arguments. -/
  | lambda (params : List String) (answer : Option HostValue)
  | thunk (label : String) (answer : Option HostValue)
  | native (p : Native)
  | deferred (name : String)
  /-- Whatever a name is bound to. -/
  | var (name : String)

namespace HostValue

/-- Building, with the next identity to give out. -/
abbrev Build := StateT Identity (Except EvalError)

def freshIdentity : Build Identity :=
  modifyGet fun next => (next, next + 1)

mutual

/-- Build a value where the given scopes are in reach. -/
def build (c : Chain) : HostValue → Build Value
  | .data v => pure v
  | .list items => do return .list (← buildAll c items)
  | .lambda params answer => do
      let answer ← buildAnswer c answer
      return .function (.host (← freshIdentity) "lambda" (some params) answer)
  | .thunk label answer => do
      let answer ← buildAnswer c answer
      return .function (.host (← freshIdentity) label none answer)
  | .native p => pure (.function (.native p))
  | .deferred name => do return .function (.deferred (← freshIdentity) name)
  | .var name => fun next => do return (← c.lookup name, next)

def buildAll (c : Chain) : List HostValue → Build (List Value)
  | [] => pure []
  | v :: vs => do return (← build c v) :: (← buildAll c vs)

def buildAnswer (c : Chain) : Option HostValue → Build (Option Value)
  | none => pure none
  | some v => do return some (← build c v)

end

end HostValue
end MiniLisp
