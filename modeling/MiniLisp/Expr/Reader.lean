import MiniLisp.Expr.Basic
import MiniLisp.Expr.Error
import MiniLisp.Event

/-!
# Reading expressions

A `Reader` takes tokens one at a time.  It keeps the expressions read so far, the
expressions that are still open, and the place it has come to in the innermost of
them.  Whatever a token does to the reader is decided by that place alone, so an
error is known at the token that causes it and does not depend on what follows.
-/

namespace MiniLisp

/-- The head of an open expression. -/
inductive Head where
  | arith (op : Char)
  | cond
  | define
  | set
  | lambda (params : List String)
  | begin
  | list
  | call (callee : String)
  deriving DecidableEq, Repr

namespace Head

/-- The expression with the given head and elements.  A wrong number of elements
is reported on the line of the head. -/
def build (head : Head) (line : Nat) (elements : List Element) : Except ParseError Expr :=
  match head, elements with
  | .arith op, operands =>
      if op = '*' ∧ operands.length < 2 then
        .error (.arity "*" (.atLeast 2) operands.length line)
      else .ok (.arith op operands)
  | .cond, [test, yes, no] => .ok (.cond test yes no)
  | .cond, es => .error (.arity "if" (.exactly 3) es.length line)
  | .define, [target, value] => .ok (.define target value)
  | .define, es => .error (.arity "define" (.exactly 2) es.length line)
  | .set, [target, value] => .ok (.set target value)
  | .set, es => .error (.arity "set" (.exactly 2) es.length line)
  | .lambda _, [] => .error (.arity "lambda body" (.atLeast 1) 0 line)
  | .lambda params, body => .ok (.lambda params body)
  | .begin, [] => .error (.arity "begin" (.atLeast 1) 0 line)
  | .begin, body => .ok (.begin body)
  | .list, items => .ok (.list items)
  | .call callee, args => .ok (.call callee args)

/-- What is told once the elements are complete. -/
def events (head : Head) (count : Nat) : List Event :=
  match head with
  | .arith op => [.compiledArithmetic op count]
  | .call callee => [.compiledCall callee count]
  | _ => []

end Head

/-- An open expression: its head, the line of the head, and the elements read so
far, the last one first. -/
structure Pending where
  head : Head
  line : Nat
  elements : List Element

namespace Pending

def push (p : Pending) (e : Element) : Pending :=
  { p with elements := e :: p.elements }

def build (p : Pending) : Except ParseError Expr :=
  p.head.build p.line p.elements.reverse

end Pending

/-- The place that a reader has come to. -/
inductive Place where
  /-- Between two expressions of the unit. -/
  | between
  /-- After an opening parenthesis. -/
  | head
  /-- After the word `set`, where an exclamation mark may follow. -/
  | bang (line : Nat)
  /-- After the word `lambda`, before the parameters. -/
  | paramsStart (line : Nat)
  /-- Among the parameters of a lambda, the last one first. -/
  | params (line : Nat) (names : List String)
  /-- Among the elements of an expression. -/
  | elements (p : Pending)

/-- The state of reading.  The expressions read so far have the last one first,
and the open ones have the innermost first; the one the reader is in belongs to
its place. -/
structure Reader where
  done : List Expr
  outer : List Pending
  place : Place

namespace Reader

def initial : Reader := ⟨[], [], .between⟩

def moveTo (r : Reader) (place : Place) : Reader :=
  { r with place }

/-- Hand a complete expression to the one around it. -/
def close (r : Reader) (e : Expr) : Reader :=
  match r.outer with
  | [] => { r with done := e :: r.done, place := .between }
  | p :: outer => { r with outer, place := .elements (p.push (.expr e)) }

/-- Start the form of a keyword. -/
def keyword (r : Reader) (t : Token) : Except ParseError Reader :=
  let form (head : Head) := .ok (r.moveTo (.elements ⟨head, t.line, []⟩))
  match t.name with
  | "if" => form .cond
  | "define" => form .define
  | "set" => .ok (r.moveTo (.bang t.line))
  | "lambda" => .ok (r.moveTo (.paramsStart t.line))
  | "begin" => form .begin
  | "list" => form .list
  | word => .error (.unknownForm word t.line)

/-- Take the token after an opening parenthesis. -/
def takeHead (r : Reader) (t : Token) : Except ParseError Reader :=
  match t.kind with
  | .arith => .ok (r.moveTo (.elements ⟨.arith t.operator, t.line, []⟩))
  | .keyword => r.keyword t
  | .identifier => .ok (r.moveTo (.elements ⟨.call t.name, t.line, []⟩))
  | .rparen => .ok (r.close .empty)
  | found => .error (.invalidHead found t.line)

/-- Take a token among the elements of `p`.  Quotes around strings carry no
meaning there. -/
def takeElement (r : Reader) (p : Pending) (t : Token) : Except ParseError Reader :=
  match t.kind with
  | .quote => .ok (r.moveTo (.elements p))
  | .int | .num | .float | .str => .ok (r.moveTo (.elements (p.push (.literal t.value))))
  | .identifier => .ok (r.moveTo (.elements (p.push (.name t.value))))
  | .lparen => .ok { r with outer := p :: r.outer, place := .head }
  | .rparen => r.close <$> p.build
  | found => .error (.unexpectedElement found t.line)

/-- Take a token among the parameters of a lambda. -/
def takeParam (r : Reader) (line : Nat) (names : List String) (t : Token) :
    Except ParseError Reader :=
  match t.kind with
  | .identifier => .ok (r.moveTo (.params line (t.name :: names)))
  | .rparen => .ok (r.moveTo (.elements ⟨.lambda names.reverse, line, []⟩))
  | found => .error (.invalidParameter found t.line)

/-- Move on over an opening parenthesis, which has to come next. -/
def expectParen (r : Reader) (place : Place) (situation : Situation) (t : Token) :
    Except ParseError Reader :=
  if t.kind = .lparen then .ok (r.moveTo place)
  else .error (.unexpectedToken .lparen t.kind t.line situation)

/-- Take the next token. -/
def step (r : Reader) (t : Token) : Except ParseError Reader :=
  match r.place with
  | .between => r.expectParen .head .start t
  | .head => r.takeHead t
  | .bang line =>
      if t.kind = .not then .ok (r.moveTo (.elements ⟨.set, line, []⟩))
      else r.takeElement ⟨.set, line, []⟩ t
  | .paramsStart line => r.expectParen (.params line []) .paramsStart t
  | .params line names => r.takeParam line names t
  | .elements p => r.takeElement p t

/-- The expressions of a unit whose tokens have all been taken. -/
def finish (r : Reader) : Except ParseError (List Expr) :=
  match r.place with
  | .between => .ok r.done.reverse
  | .head => .error (.unexpectedEnd .rparen .head)
  | .paramsStart _ => .error (.unexpectedEnd .lparen .paramsStart)
  | .params .. => .error (.unexpectedEnd .rparen .paramsEnd)
  | .bang _ | .elements _ => .error (.unexpectedEnd .rparen .elements)

/-- What is told when the token at a position is taken among the elements of
`p`. -/
def elementEvents (pos : Nat) (p : Pending) (t : Token) : List Event :=
  match t.kind with
  | .lparen => [.matched pos .lparen]
  | .rparen =>
      p.head.events p.elements.length ++
        match p.build with
        | .ok _ => [.matched pos .rparen]
        | .error _ => []
  | _ => []

/-- What is told when the token at a position is taken. -/
def events (r : Reader) (pos : Nat) (t : Token) : List Event :=
  match r.place with
  | .between | .paramsStart _ => if t.kind = .lparen then [.matched pos .lparen] else []
  | .head => if t.kind = .rparen then [.matched pos .rparen] else []
  | .bang line => elementEvents pos ⟨.set, line, []⟩ t
  | .params .. => []
  | .elements p => elementEvents pos p t

/-- What is told while tokens are taken, up to the first error. -/
def trace (pos : Nat) (r : Reader) : List Token → List Event
  | [] => []
  | t :: ts =>
      r.events pos t ++
        match r.step t with
        | .ok next => trace (pos + 1) next ts
        | .error _ => []

end Reader

/-- Read the expressions of a unit. -/
def parse (tokens : List Token) : Except ParseError (List Expr) :=
  tokens.foldlM Reader.step .initial >>= Reader.finish

/-- What is told while a unit is read. -/
def parseEvents (tokens : List Token) : List Event :=
  Reader.trace 0 .initial tokens ++
    match parse tokens with
    | .ok expressions => [.compiledProgram expressions.length]
    | .error _ => []

end MiniLisp
