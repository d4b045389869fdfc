import MiniLisp.Value.Basic
import MiniLisp.Binary64.Text
import MiniLisp.Text.Escape

/-!
# Inspecting values

The texts in this file are for developers.  They name the kind of every value, and
strings in them are escaped.
-/

namespace MiniLisp
namespace Inspect

/-- Items in square brackets. -/
def bracketed (items : List String) : String :=
  "[" ++ ", ".intercalate items ++ "]"

/-- A name with its fields in braces. -/
def record (name : String) (fields : List String) : String :=
  name ++ " \x7b " ++ ", ".intercalate fields ++ " \x7d"

/-- A function made from code, with its parameters if it is a lambda. -/
def closure (label : String) (params : Option (List String)) : String :=
  let params :=
    match params with
    | none => "None"
    | some names => "Some(" ++ bracketed (names.map Text.escape) ++ ")"
  record "Closure" ["label: " ++ Text.escape label, "params: " ++ params, ".."]

end Inspect

def Function.inspect : Function → String
  | .thunk _ form => Inspect.closure form.label none
  | .lambda _ params _ => Inspect.closure "lambda" (some params)
  | .deferred _ name => "Deferred(" ++ Text.escape name ++ ")"
  | .native p => "Native(" ++ Text.escape p.name ++ ")"
  | .host _ label params _ => Inspect.closure label params

namespace Value

mutual

def inspect : Value → String
  | .int n => "Int(" ++ toString n.toInt ++ ")"
  | .float x => "Float(" ++ Binary64.Style.inspected.write x ++ ")"
  | .str s => "Str(" ++ Text.escape s ++ ")"
  | .bool b => if b then "Bool(true)" else "Bool(false)"
  | .null => "Null"
  | .list items => Inspect.bracketed (inspectAll items)
  | .function f => f.inspect

def inspectAll : List Value → List String
  | [] => []
  | v :: vs => inspect v :: inspectAll vs

end

end Value
end MiniLisp
