import MiniLisp.Value.Basic
import MiniLisp.Binary64.Text

/-!
# The text of a value

`Value.display` writes a value the way source text does: integers that are not
negative and strings that lack one of the two quotes read back as the same
token.  `Value.text` is for output to users and leaves strings unquoted.
-/

namespace MiniLisp

/-- Put a string between quotes.  The quote is the double one, unless only the
single one is absent from the text. -/
def quoted (s : String) : String :=
  let quote := if s.toList.contains '"' && !s.toList.contains '\'' then "'" else "\""
  quote ++ s ++ quote

namespace Function

def display : Function → String
  | .deferred _ name => "<deferred " ++ name ++ ">"
  | .native p => "<native " ++ p.name ++ ">"
  | f => if f.isLambda then "<lambda>" else "<function>"

end Function

namespace Value

mutual

/-- Write a value, given how strings are written. -/
def write (string : String → String) : Value → String
  | .int n => toString n.toInt
  | .float x => Binary64.Style.plain.write x
  | .str s => string s
  | .bool b => if b then "true" else "false"
  | .null => "null"
  | .list items => "(" ++ " ".intercalate (writeAll string items) ++ ")"
  | .function f => f.display

def writeAll (string : String → String) : List Value → List String
  | [] => []
  | v :: vs => write string v :: writeAll string vs

end

/-- The text of a value as in source text. -/
def display (v : Value) : String :=
  v.write quoted

/-- The text of a value for users. -/
def text (v : Value) : String :=
  v.write id

end Value
end MiniLisp
