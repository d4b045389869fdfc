import MiniLisp.Token.Basic

/-!
# Parse errors

The first parse error ends the reading of a unit.
-/

namespace MiniLisp

/-- How many elements a form takes. -/
inductive Arity where
  | exactly (n : Nat)
  | atLeast (n : Nat)
  deriving DecidableEq, Repr

def Arity.text : Arity → String
  | .exactly n => toString n
  | .atLeast n => "at least " ++ toString n

/-- What was being read when a token was missing or out of place. -/
inductive Situation where
  | start
  | head
  | paramsStart
  | paramsEnd
  | elements
  | finish
  deriving DecidableEq, Repr

def Situation.text : Situation → String
  | .start => "when starting to parse an expression"
  | .head => "when trying to find the start of an expression"
  | .paramsStart => "while seeking arguments for a lambda"
  | .paramsEnd => "while seeking to end the arguments for a lambda"
  | .elements => "while reading the elements of an expression"
  | .finish => "when trying to finish parsing an expression"

inductive ParseError where
  /-- A certain token was needed and another one stood there. -/
  | unexpectedToken (expected found : TokenKind) (line : Nat) (situation : Situation)
  /-- The tokens ended inside an expression. -/
  | unexpectedEnd (expected : TokenKind) (situation : Situation)
  | unexpectedElement (found : TokenKind) (line : Nat)
  | invalidHead (found : TokenKind) (line : Nat)
  | arity (form : String) (expected : Arity) (found line : Nat)
  /-- A keyword that names no form. -/
  | unknownForm (keyword : String) (line : Nat)
  | invalidParameter (found : TokenKind) (line : Nat)
  deriving DecidableEq, Repr

namespace ParseError

private def atLine (line : Nat) (text : String) : String :=
  "line " ++ toString line ++ ": " ++ text

def message : ParseError → String
  | .unexpectedToken expected found line situation =>
      atLine line ("unexpected token: expected " ++ expected.description ++ " but got " ++
        found.description ++ " " ++ situation.text)
  | .unexpectedEnd expected situation =>
      "unexpected end of input: expected " ++ expected.description ++ " " ++ situation.text
  | .unexpectedElement found line =>
      atLine line ("`" ++ found.description ++ "` cannot be used as an element")
  | .invalidHead found line =>
      atLine line ("`" ++ found.description ++ "` cannot start an expression")
  | .arity form expected found line =>
      atLine line (form ++ " expects " ++ expected.text ++ " arguments, but got " ++
        toString found)
  | .unknownForm keyword line => atLine line ("`" ++ keyword ++ "` is not a known form")
  | .invalidParameter found line =>
      atLine line ("lambda parameters must be identifiers, got `" ++ found.description ++ "`")

end ParseError
end MiniLisp
