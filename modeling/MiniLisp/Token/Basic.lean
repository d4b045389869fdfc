import MiniLisp.Value.Basic

/-!
# Tokens

A token has a kind, a payload and the line it starts on.  Literals carry their
number or text, words their spelling, and symbols the character they stand for.
-/

namespace MiniLisp

inductive TokenKind where
  | identifier
  | keyword
  /-- An integer, such as `42`. -/
  | int
  /-- A number with the suffix `f`. -/
  | float
  /-- A number with a dot and no suffix. -/
  | num
  /-- The text between two quotes. -/
  | str
  | quote
  | arith
  /-- Reserved for comparisons; no source text produces it. -/
  | conditional
  | bitwise
  | not
  | lparen
  | rparen
  | lbrace
  | rbrace
  | lbracket
  | rbracket
  | semicolon
  | colon
  | comma
  | lthan
  | gthan
  deriving DecidableEq, Repr, Inhabited

namespace TokenKind

def all : List TokenKind :=
  [.identifier, .keyword, .int, .float, .num, .str, .quote, .arith, .conditional, .bitwise,
    .not, .lparen, .rparen, .lbrace, .rbrace, .lbracket, .rbracket, .semicolon, .colon, .comma,
    .lthan, .gthan]

/-- The name of a kind in listings and logs. -/
def name : TokenKind → String
  | .identifier => "Identifier"
  | .keyword => "Keyword"
  | .int => "Int"
  | .float => "Float"
  | .num => "Num"
  | .str => "Str"
  | .quote => "Quote"
  | .arith => "Arith"
  | .conditional => "Conditional"
  | .bitwise => "Bitwise"
  | .not => "Not"
  | .lparen => "LParen"
  | .rparen => "RParen"
  | .lbrace => "LBrace"
  | .rbrace => "RBrace"
  | .lbracket => "LBracket"
  | .rbracket => "RBracket"
  | .semicolon => "Semicolon"
  | .colon => "Colon"
  | .comma => "Comma"
  | .lthan => "LThan"
  | .gthan => "GThan"

/-- The kind of the given name. -/
def ofName? (name : String) : Option TokenKind :=
  all.find? (·.name == name)

/-- What tokens of a kind look like, for error messages. -/
def description : TokenKind → String
  | .identifier => "abc_123"
  | .keyword => "eg. if"
  | .int => "int"
  | .float => "float"
  | .num => "eg 1.0"
  | .str => "eg. hello world"
  | .quote => "\" or '"
  | .arith => "+,-,*,/"
  | .conditional => "== or !="
  | .bitwise => "|,&,^"
  | .not => "!"
  | .lparen => "("
  | .rparen => ")"
  | .lbrace => "\x7b"
  | .rbrace => "\x7d"
  | .lbracket => "["
  | .rbracket => "]"
  | .semicolon => ";"
  | .colon => ":"
  | .comma => ","
  | .lthan => "<"
  | .gthan => ">"

/-- The kind of a character that is a token by itself. -/
def ofSymbol? (c : Char) : Option TokenKind :=
  match c with
  | '(' => some .lparen
  | ')' => some .rparen
  | '{' => some .lbrace
  | '}' => some .rbrace
  | '[' => some .lbracket
  | ']' => some .rbracket
  | ';' => some .semicolon
  | ':' => some .colon
  | ',' => some .comma
  | '<' => some .lthan
  | '>' => some .gthan
  | '+' | '-' | '*' | '/' => some .arith
  | '&' | '|' | '^' => some .bitwise
  | '!' => some .not
  | _ => none

end TokenKind

structure Token where
  kind : TokenKind
  value : Value
  /-- Lines are counted from one and without a limit.  A counter of 32 bits comes to the
  same for every text whose line ends it can count. -/
  line : Nat
  deriving Inhabited

namespace Token

/-- The payload as text, if it is one. -/
def text? (t : Token) : Option String :=
  t.value.asText?

/-- Tokens are equal if all three parts are. -/
def same (s t : Token) : Bool :=
  s.kind == t.kind && s.value == t.value && s.line == t.line

instance : BEq Token := ⟨same⟩

end Token
end MiniLisp
