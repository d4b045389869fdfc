import MiniLisp.Binary64.Basic

/-!
# Values

Everything the interpreter handles is a `Value`: the payload of a token, a
compiled expression, the result of a run.  Code is a value too.  A parenthesized
expression is compiled to a thunk or a lambda, and a name in reading position
to a deferred lookup; the elements of a compiled form are values again.

No function holds an environment.  Names are resolved in the scope of the
caller at the time of the call, so a value means the same wherever it is stored.
-/

namespace MiniLisp

/-- The operators that are evaluated. -/
inductive Operator where
  | add
  | mul
  deriving DecidableEq, Repr, Inhabited

def Operator.symbol : Operator → Char
  | .add => '+'
  | .mul => '*'

/-- The built-in functions of the standard environment. -/
inductive Native where
  | print
  | length
  | not
  deriving DecidableEq, Repr, Inhabited

def Native.name : Native → String
  | .print => "print"
  | .length => "length"
  | .not => "not"

def Native.all : List Native := [.print, .length, .not]

/-- Every function that is not built in has an identity: a number that was given
out once, when the function was made. -/
abbrev Identity := Nat

mutual

inductive Value where
  | int (n : Int64)
  | float (x : Binary64)
  | str (text : String)
  | bool (b : Bool)
  | null
  | list (items : List Value)
  | function (f : Function)

inductive Function where
  /-- A compiled expression. -/
  | thunk (id : Identity) (form : Form)
  /-- A compiled lambda; a call binds the parameters in a scope of its own. -/
  | lambda (id : Identity) (params : List String) (body : List Value)
  /-- A name in reading position, looked up whenever it is called. -/
  | deferred (id : Identity) (name : String)
  | native (p : Native)
  /-- A function supplied by the host program.  A call gives the fixed answer,
  or, without one, the list of its arguments. -/
  | host (id : Identity) (label : String) (params : Option (List String))
      (answer : Option Value)

/-- What a compiled expression does when it is called. -/
inductive Form where
  | empty
  | arith (op : Operator) (operands : List Value)
  /-- An operator that is read but not evaluated. -/
  | unsupported (op : Char)
  | cond (test yes no : Value)
  | define (target value : Value)
  | set (target value : Value)
  | begin (body : List Value)
  | list (items : List Value)
  | call (callee : String) (args : List Value)

end

instance : Inhabited Value := ⟨.null⟩
instance : Inhabited Form := ⟨.empty⟩
instance : Inhabited Function := ⟨.thunk 0 .empty⟩

/-- The kinds of values, as error messages name them. -/
inductive Kind where
  | int
  | float
  | string
  | bool
  | null
  | list
  | function
  deriving DecidableEq, Repr, Inhabited

def Kind.name : Kind → String
  | .int => "int"
  | .float => "float"
  | .string => "string"
  | .bool => "bool"
  | .null => "null"
  | .list => "list"
  | .function => "function"

namespace Form

/-- The word for a form in developer output. -/
def label : Form → String
  | .empty => "()"
  | .arith .add _ => "+"
  | .arith .mul _ => "*"
  | .unsupported _ => "arith"
  | .cond .. => "if"
  | .define .. => "define"
  | .set .. => "set"
  | .begin _ => "begin"
  | .list _ => "list"
  | .call .. => "call"

end Form

namespace Function

/-- The declared parameters; only lambdas have them. -/
def params? : Function → Option (List String)
  | .lambda _ params _ => some params
  | .host _ _ params _ => params
  | .thunk .. | .deferred .. | .native _ => none

def isLambda (f : Function) : Bool :=
  f.params?.isSome

/-- Whether two functions are one and the same.  Natives are known by their name
and all others by their identity.  As an identity is given out once, functions
that share it also agree in what is compared beside it, which is what their text
depends on. -/
def same : Function → Function → Bool
  | .thunk i _, .thunk j _ => i == j
  | .lambda i _ _, .lambda j _ _ => i == j
  | .deferred i x, .deferred j y => i == j && x == y
  | .native p, .native q => p == q
  | .host i _ ps _, .host j _ qs _ => i == j && ps.isSome == qs.isSome
  | _, _ => false

instance : BEq Function := ⟨same⟩

end Function

namespace Value

def kind : Value → Kind
  | .int _ => .int
  | .float _ => .float
  | .str _ => .string
  | .bool _ => .bool
  | .null => .null
  | .list _ => .list
  | .function _ => .function

def asInt? : Value → Option Int64
  | .int n => some n
  | _ => none

def asFloat? : Value → Option Binary64
  | .float x => some x
  | _ => none

def asText? : Value → Option String
  | .str s => some s
  | _ => none

def asList? : Value → Option (List Value)
  | .list items => some items
  | _ => none

def asFunction? : Value → Option Function
  | .function f => some f
  | _ => none

def isFunction (v : Value) : Bool :=
  v.asFunction?.isSome

/-- Only `false` and the integer zero count as false. -/
def isTruthy : Value → Bool
  | .bool b => b
  | .int n => n != 0
  | _ => true

mutual

/-- Equality of values: data by content, floats word for word, functions by
identity. -/
def same : Value → Value → Bool
  | .int a, .int b => a == b
  | .float x, .float y => x == y
  | .str s, .str t => s == t
  | .bool a, .bool b => a == b
  | .null, .null => true
  | .list xs, .list ys => sameAll xs ys
  | .function f, .function g => f == g
  | _, _ => false

/-- Lists are equal if they have the same length and equal elements. -/
def sameAll : List Value → List Value → Bool
  | [], [] => true
  | x :: xs, y :: ys => same x y && sameAll xs ys
  | _, _ => false

end

instance : BEq Value := ⟨same⟩

end Value
end MiniLisp
