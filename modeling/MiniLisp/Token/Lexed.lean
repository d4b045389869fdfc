import MiniLisp.Token.Keywords
import MiniLisp.Token.Lexeme
import MiniLisp.Token.Numeral

/-!
# Tokens of a source text

Reading source text never fails.  What cannot be a token is left out and becomes
a diagnostic, and reading goes on right after it.
-/

namespace MiniLisp

/-- Why a piece of source was left out. -/
inductive Fault where
  | invalidSuffix (literal : String)
  | tooManyDots (literal : String)
  | intOverflow (literal : String)
  | malformedNumber (literal : String)
  | unknownSyntax (c : Char)
  | unterminatedString (quote : Char)
  deriving DecidableEq, Repr

def Fault.message : Fault → String
  | .invalidSuffix literal => "identifiers cannot be preceded by numbers: `" ++ literal ++ "`"
  | .tooManyDots literal => "numbers cannot contain more than one '.': `" ++ literal ++ "`"
  | .intOverflow literal => "integer literal out of range: `" ++ literal ++ "`"
  | .malformedNumber literal => "malformed number: `" ++ literal ++ "`"
  | .unknownSyntax c => "unknown syntax: " ++ c.toString
  | .unterminatedString quote => "unterminated string, expecting: " ++ quote.toString

structure Diagnostic where
  /-- Counted as the lines of tokens are. -/
  line : Nat
  fault : Fault
  deriving DecidableEq, Repr

def Diagnostic.message (d : Diagnostic) : String :=
  "lexing error line " ++ toString d.line ++ ": " ++ d.fault.message

/-- The tokens of a source text and the diagnostics for what was left out. -/
structure Lexed where
  tokens : List Token
  diagnostics : List Diagnostic

namespace Lexed

def empty : Lexed := ⟨[], []⟩

def append (a b : Lexed) : Lexed :=
  ⟨a.tokens ++ b.tokens, a.diagnostics ++ b.diagnostics⟩

instance : Append Lexed := ⟨append⟩

end Lexed

def Numeral.Defect.fault (literal : String) : Numeral.Defect → Fault
  | .suffix => .invalidSuffix literal
  | .dots => .tooManyDots literal
  | .range => .intOverflow literal
  | .malformed => .malformedNumber literal

namespace Lexeme

/-- What a lexeme that starts on the given line contributes.  A string gives a
token for each of its quotes, and all that follows its body stands on the line
where the body ends. -/
def emit (keywords : Keywords) (line : Nat) (x : Lexeme) : Lexed :=
  match x with
  | .blank _ | .newline => .empty
  | .number digits suffix =>
      match Numeral.classify digits suffix with
      | .ok (kind, value) => ⟨[⟨kind, value, line⟩], []⟩
      | .error defect => ⟨[], [⟨line, defect.fault (String.ofList (digits ++ suffix))⟩]⟩
  | .word letters =>
      let word := String.ofList letters
      let kind := if keywords.contains word then .keyword else .identifier
      ⟨[⟨kind, .str word, line⟩], []⟩
  | .string quote body =>
      ⟨[⟨.quote, .str quote.toString, line⟩, ⟨.str, .str (String.ofList body), line⟩,
        ⟨.quote, .str quote.toString, line + x.newlines⟩], []⟩
  | .unclosed quote body =>
      ⟨[⟨.quote, .str quote.toString, line⟩, ⟨.str, .str (String.ofList body), line⟩],
        [⟨line + x.newlines, .unterminatedString quote⟩]⟩
  | .symbol kind c => ⟨[⟨kind, .str c.toString, line⟩], []⟩
  | .unknown c => ⟨[], [⟨line, .unknownSyntax c⟩]⟩

end Lexeme

namespace Lexed

/-- What lexemes contribute, the first of them starting on the given line. -/
def ofLexemes (keywords : Keywords) : Nat → List Lexeme → Lexed
  | _, [] => .empty
  | line, x :: xs => x.emit keywords line ++ ofLexemes keywords (line + x.newlines) xs

end Lexed

/-- Read source text. -/
def lex (keywords : Keywords) (source : String) : Lexed :=
  .ofLexemes keywords 1 (Lexeme.split source.toList)

end MiniLisp
