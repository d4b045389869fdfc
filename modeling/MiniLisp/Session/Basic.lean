import MiniLisp.Interpreter
import MiniLisp.Scope.Inspect
import MiniLisp.Session.Host

/-!
# Sessions

A session is a dialogue between a host program and an interpreter.  The host
numbers the scopes it works with, number zero being the one that units run in, and
sends commands that each act on one of them.  A command that fails is answered and
does not end the session.
-/

namespace MiniLisp
namespace Session

inductive Command where
  | load (name source : String)
  | loadFile (path : String)
  /-- List the units loaded so far. -/
  | programs
  /-- Run a unit once more. -/
  | rerun (unit : Nat)
  /-- Call one expression of a unit in the scope. -/
  | callExpr (unit expr : Nat) (args : List HostValue)
  | addKeyword (word : String)
  | isKeyword (word : String)
  /-- Run source text in the scope without keeping it as a unit. -/
  | run (source : String)
  /-- Make a scope without any around it. -/
  | root
  /-- Make a scope inside the scope. -/
  | child
  /-- Make a scope as many levels inside the scope. -/
  | descend (count : Nat)
  /-- Forget the number of the scope. -/
  | drop
  | lookup (name : String)
  | get (name : String)
  | containsLocal (name : String)
  | names
  | depth
  | inspect
  | define (name : String) (value : HostValue)
  | set (name : String) (value : HostValue)
  | bind (name : String) (value : HostValue)
  /-- Bind a name to a value, and a number of further names each to the one
  before.  The names are the stem with the numbers from zero on. -/
  | aliasChain (stem : String) (count : Nat) (value : HostValue)
  | resolve (value : HostValue)
  | apply (value : HostValue) (args : List HostValue)
  | same (a b : HostValue)

/-- A command, and the number of the scope that it acts on. -/
structure Request where
  scope : Nat
  command : Command

inductive Failure where
  | load (e : LoadError)
  | parse (e : ParseError)
  | eval (stop : Stop)

def Failure.message : Failure → String
  | .load e => e.message
  | .parse e => e.message
  | .eval stop => stop.message

/-- A unit as it is listed. -/
structure Listing where
  name : String
  program : Program
  inspected : String

inductive Reply where
  | value (v : Value) (diagnostics : List Diagnostic)
  | failed (f : Failure)
  | nothing
  | flag (b : Bool)
  | number (n : Nat)
  | text (s : String)
  | names (names : List String)
  | scope (number depth : Nat)
  | keywordCount (n : Nat)
  | listing (units : List Listing)
  /-- The request names a scope, unit, expression or function that is not
  there. -/
  | unknown

/-- A reply, with what was printed and told on the way to it. -/
structure Answer where
  reply : Reply
  console : Console

end Session

/-- An interpreter and the scopes that the host has numbered; a forgotten number
is not used again. -/
structure Session where
  interpreter : Interpreter
  handles : Array (Option ScopeId)

namespace Session

def new (keywords : Keywords) : Session :=
  ⟨.new keywords, #[some Interpreter.home]⟩

/-- What a command does: it replies and may change the session. -/
abbrev Action := StateM Session

/-- Run in a scope. -/
def within (scope : ScopeId) (m : EvalM α) : Action (Except Stop α) :=
  modifyGet fun s =>
    let (result, interpreter) := s.interpreter.within scope m
    (result, { s with interpreter })

def chain (scope : ScopeId) : Action Chain := do
  return (← get).interpreter.forest.chain scope

/-- Reply with the result of a run. -/
def reply : Except Stop Value → Reply
  | .ok v => .value v []
  | .error stop => .failed (.eval stop)

def replyLoad : Except LoadError Loaded → Reply
  | .ok loaded => .value loaded.value loaded.diagnostics
  | .error e => .failed (.load e)

def refuse (e : EvalError) : Reply :=
  .failed (.eval (.failed e))

def setForest (forest : Forest) : Action Unit :=
  modify fun s => { s with interpreter := { s.interpreter with forest } }

def setFresh (fresh : Identity) : Action Unit :=
  modify fun s => { s with interpreter := { s.interpreter with fresh } }

/-- Build values and go on with them. -/
def building (scope : ScopeId) (build : Chain → HostValue.Build α) (act : α → Action Reply) :
    Action Reply := do
  match (build (← chain scope)).run (← get).interpreter.fresh with
  | .error e => return refuse e
  | .ok (a, fresh) =>
      setFresh fresh
      act a

/-- Number a scope. -/
def enroll (scope : ScopeId) : Action Reply :=
  modifyGet fun s =>
    (.scope s.handles.size (s.interpreter.forest.depth scope),
      { s with handles := s.handles.push (some scope) })

/-- Make scopes inside one another, and give the innermost. -/
def nest : Nat → ScopeId → Forest → Except EvalError (ScopeId × Forest)
  | 0, scope, forest => .ok (scope, forest)
  | count + 1, scope, forest => do nest count forest.next (← forest.addChild scope)

def descend (scope : ScopeId) (count : Nat) : Action Reply := do
  match nest count scope (← get).interpreter.forest with
  | .error e => return refuse e
  | .ok (inner, forest) =>
      setForest forest
      enroll inner

def addRoot : Action Reply := do
  let forest := (← get).interpreter.forest
  setForest (forest.addRoot ∅)
  enroll forest.next

/-- Run source text in a scope. -/
def runSource (fuel : Nat) (scope : ScopeId) (source : String) : Action Reply := do
  let s ← get
  let (lexed, interpreter) := s.interpreter.read source
  let (program, interpreter) := interpreter.compile lexed.tokens
  set { s with interpreter }
  match program with
  | .error e => return .failed (.parse e)
  | .ok program => reply <$> within scope (program.run fuel)

def load (act : Interpreter → Except LoadError Loaded × Interpreter) : Action Reply :=
  modifyGet fun s =>
    let (result, interpreter) := act s.interpreter
    (replyLoad result, { s with interpreter })

def listings (i : Interpreter) : List Listing :=
  i.units.map fun unit =>
    ⟨unit.name, unit.program,
      Inspect.program unit.program.length (i.forest.chain Interpreter.home)⟩

/-- Store a value and give it back. -/
def store (scope : ScopeId) (value : HostValue)
    (put : Forest → Value → Except EvalError Forest) : Action Reply :=
  building scope value.build fun v => do
    match put (← get).interpreter.forest v with
    | .error e => return refuse e
    | .ok forest =>
        setForest forest
        return .value v []

/-- Bind names in a scope so that each but the first leads to the one before, and
the first to the given value. -/
def aliases (stem : String) (count : Nat) (v : Value) (fresh : Identity) (c : Chain) : Chain :=
  let name (n : Nat) := stem ++ toString n
  (List.range count).foldl
    (fun c n => c.bind (name (n + 1)) (.function (.deferred (fresh + n) (name n))))
    (c.bind (name 0) v)

def callExpr (fuel : Nat) (scope : ScopeId) (unit expr : Nat) (args : List HostValue) :
    Action Reply := do
  match (← get).interpreter.units[unit]? >>= (·.program[expr]?) with
  | none => return .unknown
  | some f =>
      building scope (HostValue.buildAll · args) fun args =>
        reply <$> within scope (call fuel f args)

/-- Carry out a command in a scope. -/
def perform (fuel : Nat) (files : Files) (handle : Nat) (scope : ScopeId) :
    Command → Action Reply
  | .load name source => load (·.load fuel name source)
  | .loadFile path => load (·.loadFile fuel path (files.read path))
  | .programs => do return .listing (listings (← get).interpreter)
  | .rerun unit => do
      match (← get).interpreter.units[unit]? with
      | none => return .unknown
      | some unit => reply <$> within Interpreter.home (unit.program.run fuel)
  | .callExpr unit expr args => callExpr fuel scope unit expr args
  | .addKeyword word => do
      modify fun s => { s with interpreter := s.interpreter.addKeyword word }
      return .keywordCount (← get).interpreter.keywords.size
  | .isKeyword word => do return .flag ((← get).interpreter.keywords.contains word)
  | .run source => runSource fuel scope source
  | .root => addRoot
  | .child => descend scope 1
  | .descend count => descend scope count
  | .drop => do
      modify fun s => { s with handles := s.handles.modify handle fun _ => none }
      return .nothing
  | .lookup name => do
      match (← chain scope).lookup name with
      | .ok v => return .value v []
      | .error e => return refuse e
  | .get name => do
      match (← chain scope).get? name with
      | some v => return .value v []
      | none => return .nothing
  | .containsLocal name => do return .flag ((← chain scope).containsLocal name)
  | .names => do return .names (← chain scope).localNames
  | .depth => do return .number (← chain scope).depth
  | .inspect => do return .text (← chain scope).inspect
  | .define name value => store scope value (·.define scope name ·)
  | .set name value => store scope value (·.set scope name ·)
  | .bind name value =>
      building scope value.build fun v => do
        setForest ((← get).interpreter.forest.bind scope name v)
        return .nothing
  | .aliasChain stem count value =>
      building scope value.build fun v => do
        let i := (← get).interpreter
        let chain := aliases stem count v i.fresh (i.forest.chain scope)
        setForest (i.forest.restore scope chain)
        setFresh (i.fresh + count)
        return .nothing
  | .resolve value =>
      building scope value.build fun v => reply <$> within scope (force fuel v)
  | .apply value args =>
      building scope (fun c => do return (← value.build c, ← HostValue.buildAll c args))
        fun (v, args) => do
          match v with
          | .function f => reply <$> within scope (call fuel f args)
          | _ => return .unknown
  | .same a b =>
      building scope (fun c => do return (← a.build c, ← b.build c))
        fun (a, b) => return .flag (a == b)

/-- Answer a request.  What is printed and told belongs to the answer and is not
kept. -/
def answer (fuel : Nat) (files : Files) (request : Request) (s : Session) : Answer × Session :=
  match s.handles[request.scope]? with
  | some (some scope) =>
      let (reply, s) := (perform fuel files request.scope scope request.command).run s
      let (console, interpreter) := s.interpreter.drain
      (⟨reply, console⟩, { s with interpreter })
  | _ => (⟨.unknown, .empty⟩, s)

/-- Answer requests in order. -/
def answerAll (fuel : Nat) (files : Files) : List Request → Session → List Answer
  | [], _ => []
  | request :: requests, s =>
      let (answer, s) := s.answer fuel files request
      answer :: answerAll fuel files requests s

end Session
end MiniLisp
