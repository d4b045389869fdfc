import MiniLisp.Token.Lexed
import MiniLisp.Value.Text

/-!
# Events

What the interpreter tells about its work.  An event has a level and is written
as one line; a log that is read at some level shows the events of that level and
of the more severe ones.
-/

namespace MiniLisp

inductive Level where
  | error
  | warn
  | info
  | debug
  | trace
  deriving DecidableEq, Repr, Inhabited

namespace Level

def name : Level → String
  | .error => "ERROR"
  | .warn => "WARN"
  | .info => "INFO"
  | .debug => "DEBUG"
  | .trace => "TRACE"

/-- How many levels are more severe. -/
def rank : Level → Nat
  | .error => 0
  | .warn => 1
  | .info => 2
  | .debug => 3
  | .trace => 4

/-- Whether a log read at level `l` shows events of level `m`. -/
def shows (l m : Level) : Bool :=
  m.rank ≤ l.rank

end Level

inductive Event where
  /-- A piece of source was left out. -/
  | leftOut (d : Diagnostic)
  /-- A lambda got more or fewer arguments than it has parameters. -/
  | argumentCount (expected got : Nat)
  | lexed (tokens errors : Nat)
  /-- The token at a position was the one that had to stand there. -/
  | matched (pos : Nat) (kind : TokenKind)
  | compiledArithmetic (op : Char) (operands : Nat)
  | compiledCall (callee : String) (args : Nat)
  | compiledProgram (expressions : Nat)
  | loadedUnit (name : String) (expressions : Nat)
  | evaluating (index : Nat)
  | unitFinished (value : Value)

namespace Event

def level : Event → Level
  | .leftOut _ | .argumentCount .. => .warn
  | .loadedUnit .. => .info
  | .compiledProgram _ | .evaluating _ | .unitFinished _ => .debug
  | .lexed .. | .matched .. | .compiledArithmetic .. | .compiledCall .. => .trace

def message : Event → String
  | .leftOut d => d.message
  | .argumentCount expected got =>
      "number of arguments passed to lambda does not match its parameters expected=" ++
        toString expected ++ " got=" ++ toString got
  | .lexed tokens errors =>
      "lexed source tokens=" ++ toString tokens ++ " errors=" ++ toString errors
  | .matched pos kind => "expect matched pos=" ++ toString pos ++ " kind=" ++ kind.name
  | .compiledArithmetic op operands =>
      "compiled arithmetic op=" ++ op.toString ++ " operands=" ++ toString operands
  | .compiledCall callee args => "compiled call callee=" ++ callee ++ " args=" ++ toString args
  | .compiledProgram expressions => "compiled program expressions=" ++ toString expressions
  | .loadedUnit name expressions =>
      "loaded unit unit=" ++ name ++ " expressions=" ++ toString expressions
  | .evaluating index => "evaluating top-level expression index=" ++ toString index
  | .unitFinished value => "unit finished value=" ++ value.display

def line (e : Event) : String :=
  e.level.name ++ " " ++ e.message

end Event

/-- What is told when source text has been read. -/
def Lexed.events (l : Lexed) : List Event :=
  l.diagnostics.map .leftOut ++ [.lexed l.tokens.length l.diagnostics.length]

end MiniLisp
