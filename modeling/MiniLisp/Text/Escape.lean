import MiniLisp.Text.Invisible

/-!
# Escaped strings

A string shown to developers stands between double quotes.  Quotes, backslashes
and line ends inside it are escaped, and so is every character that leaves no mark
of its own on the page.
-/

namespace MiniLisp
namespace Text

def hex (n : Nat) : String :=
  String.ofList (Nat.toDigits 16 n)

/-- One character of an escaped string. -/
def escapeChar (c : Char) : String :=
  match c with
  | '"' => "\\\""
  | '\\' => "\\\\"
  | '\n' => "\\n"
  | '\r' => "\\r"
  | '\t' => "\\t"
  | '\x00' => "\\0"
  | c => if isInvisible c then "\\u\x7b" ++ hex c.toNat ++ "\x7d" else c.toString

def escape (s : String) : String :=
  "\"" ++ String.join (s.toList.map escapeChar) ++ "\""

end Text
end MiniLisp
