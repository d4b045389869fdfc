import MiniLisp.Eval.InPlace
import MiniLisp.Expr.Compile
import MiniLisp.Expr.Reader
import MiniLisp.Files
import MiniLisp.Program

/-!
# The interpreter

An interpreter has a table of keywords, a forest of scopes, and the source units
it has loaded.  Units share one scope, so that what one of them defines is there
for those that follow.  Loading a unit reads it, compiles it and runs it.
-/

namespace MiniLisp

/-- A loaded unit. -/
structure SourceUnit where
  name : String
  program : Program

inductive LoadError where
  | read (e : ReadError)
  | parse (e : ParseError)
  | eval (stop : Stop)

def LoadError.message : LoadError → String
  | .read e => e.message
  | .parse e => "parse error: " ++ e.message
  | .eval stop => "evaluation error: " ++ stop.message

/-- The result of loading a unit. -/
structure Loaded where
  value : Value
  /-- What was left out of the source. -/
  diagnostics : List Diagnostic

structure Interpreter where
  keywords : Keywords
  forest : Forest
  units : List SourceUnit
  /-- The first identity that is still free. -/
  fresh : Identity
  console : Console

namespace Interpreter

/-- The scope that all units run in. -/
def home : ScopeId := 0

/-- An interpreter that has loaded nothing and knows the standard environment. -/
def new (keywords : Keywords) : Interpreter where
  keywords
  forest := Forest.empty.addRoot .standard
  units := []
  fresh := 0
  console := .empty

/-- Take what has been printed and told so far. -/
def drain (i : Interpreter) : Console × Interpreter :=
  (i.console, { i with console := .empty })

def tell (i : Interpreter) (events : List Event) : Interpreter :=
  { i with console := i.console.tellAll events }

/-- Register a keyword for all that is read later. -/
def addKeyword (i : Interpreter) (word : String) : Interpreter :=
  { i with keywords := i.keywords.insert word }

/-- Run in a scope: its chain is taken out of the forest and put back in the end. -/
def within (i : Interpreter) (scope : ScopeId) (m : EvalM α) :
    Except Stop α × Interpreter :=
  let leave (run : Run) : Interpreter :=
    { i with forest := i.forest.restore scope run.chain, console := run.console }
  match m ⟨i.forest.chain scope, i.console⟩ with
  | .ok v run => (.ok v, leave run)
  | .error stop run => (.error stop, leave run)

/-- Run in a scope of the forest as it is. -/
def inPlace (i : Interpreter) (scope : ScopeId) (m : ForestM α) :
    Except Stop α × Interpreter :=
  let leave (world : World) : Interpreter :=
    { i with forest := world.forest, console := world.console }
  match m scope ⟨i.forest, i.console⟩ with
  | .ok v world => (.ok v, leave world)
  | .error stop world => (.error stop, leave world)

/-- Read and compile tokens. -/
def compile (i : Interpreter) (tokens : List Token) : Except ParseError Program × Interpreter :=
  let i := i.tell (parseEvents tokens)
  match parse tokens with
  | .error e => (.error e, i)
  | .ok expressions =>
      let (program, fresh) := (compileAll expressions).run i.fresh
      (.ok program, { i with fresh })

/-- Read source text with the keywords registered by now. -/
def read (i : Interpreter) (source : String) : Lexed × Interpreter :=
  let lexed := lex i.keywords source
  (lexed, i.tell lexed.events)

/-- Load a unit from source text.  A unit that compiles is kept, also if its run
fails. -/
def load (i : Interpreter) (fuel : Nat) (name source : String) :
    Except LoadError Loaded × Interpreter :=
  let (lexed, i) := i.read source
  match i.compile lexed.tokens with
  | (.error e, i) => (.error (.parse e), i)
  | (.ok program, i) =>
      let i := i.tell [.loadedUnit name program.length]
      let (result, i) := i.within home (program.run fuel)
      let i := { i with units := i.units ++ [⟨name, program⟩] }
      match result with
      | .error stop => (.error (.eval stop), i)
      | .ok value => (.ok ⟨value, lexed.diagnostics⟩, i.tell [.unitFinished value])

/-- Load a unit from what reading its file gave. -/
def loadFile (i : Interpreter) (fuel : Nat) (path : String)
    (source : Except ReadError String) : Except LoadError Loaded × Interpreter :=
  match source with
  | .error e => (.error (.read e), i)
  | .ok source => i.load fuel path source

end Interpreter
end MiniLisp
