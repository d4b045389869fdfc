import MiniLisp.Scope.Chain
import MiniLisp.Value.Inspect

/-!
# Inspecting scopes

A scope is shown to developers by its depth and the names it binds.
-/

namespace MiniLisp

def Chain.inspect (c : Chain) : String :=
  Inspect.record "Environment"
    ["depth: " ++ toString c.depth,
      "bindings: " ++ Inspect.bracketed (c.localNames.map Text.escape)]

/-- A program of some number of expressions, and the scope it runs in. -/
def Inspect.program (expressions : Nat) (c : Chain) : String :=
  record "Program" ["expressions: " ++ toString expressions, "env: " ++ c.inspect]

end MiniLisp
