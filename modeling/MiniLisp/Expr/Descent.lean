import MiniLisp.Expr.Reader

/-!
# Reading by descent

Expressions are nested, and so may be the functions that read them: a function for
expressions calls the one for elements, and that calls it again for an expression among the
elements.  Each function takes the tokens that are left and gives what it has read, with the
tokens behind it.  As it never gives back more than it was given, the descent ends.

Where a `Reader` remembers the open expressions, the functions here wait for one another.
-/

namespace MiniLisp
namespace Descent

/-- What is left once some tokens have been taken. -/
abbrev Shorter (ts : List Token) := { rest : List Token // rest.length < ts.length }

abbrev NoLonger (ts : List Token) := { rest : List Token // rest.length ≤ ts.length }

def NoLonger.widen {ts us : List Token} (h : ts.length ≤ us.length) (rest : NoLonger ts) :
    NoLonger us :=
  ⟨rest.val, Nat.le_trans rest.property h⟩

/-- What is left in the end, if `left` was left first. -/
def Shorter.then {ts : List Token} (left : Shorter ts) (rest : NoLonger left.val) : NoLonger ts :=
  rest.widen (Nat.le_of_lt left.property)

/-- Take a token, which has to be of the given kind. -/
def expect (kind : TokenKind) (situation : Situation) (ts : List Token) :
    Except ParseError (Shorter ts) :=
  match ts with
  | [] => .error (.unexpectedEnd kind situation)
  | t :: rest =>
      if t.kind = kind then .ok ⟨rest, Nat.lt_succ_self _⟩
      else .error (.unexpectedToken kind t.kind t.line situation)

/-- Pass over the next token, if it is of the given kind. -/
def eat (kind : TokenKind) (ts : List Token) : NoLonger ts :=
  match ts with
  | [] => ⟨[], Nat.le_refl _⟩
  | t :: rest => if t.kind = kind then ⟨rest, Nat.le_succ _⟩ else ⟨t :: rest, Nat.le_refl _⟩

/-- Pass over all tokens of the given kind that come next. -/
def skip (kind : TokenKind) (ts : List Token) : NoLonger ts :=
  ⟨ts.dropWhile (·.kind = kind), (List.dropWhile_sublist _).length_le⟩

/-- Names up to a closing parenthesis, which is taken too. -/
def names : (ts : List Token) → Except ParseError (List String × NoLonger ts)
  | [] => .error (.unexpectedEnd .rparen .paramsEnd)
  | t :: ts =>
      match t.kind with
      | .rparen => .ok ([], ⟨ts, Nat.le_succ _⟩)
      | .identifier => do
          let (rest, left) ← names ts
          return (t.name :: rest, left.widen (Nat.le_succ _))
      | found => .error (.invalidParameter found t.line)

/-- The parameters of a lambda, with their parentheses. -/
def params (ts : List Token) : Except ParseError (List String × NoLonger ts) := do
  let left ← expect .lparen .paramsStart ts
  let (params, left') ← names left.val
  return (params, left.then left')

/-- What is found where an element may stand. -/
inductive Found (ts : List Token) where
  | element (x : Element) (left : Shorter ts)
  /-- A closing parenthesis, which is left for the expression around. -/
  | closing (left : NoLonger ts)

mutual

/-- An expression, with its parentheses. -/
def expr (ts : List Token) : Except ParseError (Expr × Shorter ts) := do
  match ← expect .lparen .start ts with
  | ⟨[], _⟩ => throw (.unexpectedEnd .rparen .head)
  | ⟨t :: rest, hopened⟩ =>
      have : rest.length < ts.length := Nat.lt_trans (Nat.lt_succ_self _) hopened
      let (e, inner) ← headed t rest
      let left ← expect .rparen .finish inner.val
      return (e, ⟨left.val,
        Nat.lt_trans (Nat.lt_of_lt_of_le left.property inner.property) hopened⟩)
termination_by (ts.length, 0)

/-- What stands between the parentheses of an expression, if it starts with `t`. -/
def headed (t : Token) (ts : List Token) : Except ParseError (Expr × NoLonger (t :: ts)) := do
  let behind (read : Expr × NoLonger ts) : Expr × NoLonger (t :: ts) :=
    (read.1, read.2.widen (Nat.le_succ _))
  match t.kind with
  | .arith => behind <$> form (.arith t.operator) t.line ts
  | .keyword => behind <$> keyword t ts
  | .identifier => behind <$> form (.call t.name) t.line ts
  | .rparen => return (.empty, ⟨t :: ts, Nat.le_refl _⟩)
  | found => throw (.invalidHead found t.line)
termination_by (ts.length, 5)

/-- The form that the keyword `t` names. -/
def keyword (t : Token) (ts : List Token) : Except ParseError (Expr × NoLonger ts) := do
  match t.name with
  | "if" => form .cond t.line ts
  | "define" => binding .define t.line ts
  | "set" =>
      let ⟨rest, hrest⟩ := eat .not ts
      let (e, left) ← binding .set t.line rest
      return (e, left.widen hrest)
  | "lambda" =>
      let (params, ⟨rest, hrest⟩) ← params ts
      let (e, left) ← form (.lambda params) t.line rest
      return (e, left.widen hrest)
  | "begin" => form .begin t.line ts
  | "list" => form .list t.line ts
  | word => throw (.unknownForm word t.line)
termination_by (ts.length, 4)
decreasing_by all_goals apply Prod.Lex.right' <;> omega

/-- The elements of a form. -/
def form (head : Head) (line : Nat) (ts : List Token) :
    Except ParseError (Expr × NoLonger ts) := do
  let (xs, left) ← elements ts
  return (← head.build line xs, left)
termination_by (ts.length, 3)

/-- The target of a form that binds a name, and its other elements. -/
def binding (head : Head) (line : Nat) (ts : List Token) :
    Except ParseError (Expr × NoLonger ts) := do
  match ← element ts with
  | .closing left => return (← head.build line [], left)
  | .element x left =>
      let (xs, left') ← elements left.val
      return (← head.build line (x :: xs), left.then left')
termination_by (ts.length, 3)

/-- Elements up to a closing parenthesis, which is not taken. -/
def elements (ts : List Token) : Except ParseError (List Element × NoLonger ts) := do
  match ← element ts with
  | .closing left => return ([], left)
  | .element x left =>
      let (xs, left') ← elements left.val
      return (x :: xs, left.then left')
termination_by (ts.length, 2)

/-- The next element.  Quotes around strings carry no meaning here. -/
def element (ts : List Token) : Except ParseError (Found ts) := do
  match skip .quote ts with
  | ⟨[], _⟩ => throw (.unexpectedEnd .rparen .elements)
  | ⟨t :: rest, hskipped⟩ =>
      match t.kind with
      | .int | .num | .float | .str => return .element (.literal t.value) ⟨rest, hskipped⟩
      | .identifier => return .element (.name t.value) ⟨rest, hskipped⟩
      | .lparen =>
          let (e, left) ← expr (t :: rest)
          return .element (.expr e) ⟨left.val, Nat.lt_of_lt_of_le left.property hskipped⟩
      | .rparen => return .closing ⟨t :: rest, hskipped⟩
      | found => throw (.unexpectedElement found t.line)
termination_by (ts.length, 1)
decreasing_by exact Prod.Lex.right' _ hskipped (by decide)

end

end Descent

/-- Read the expressions of a unit by descent. -/
def descend (ts : List Token) : Except ParseError (List Expr) := do
  match ts with
  | [] => return []
  | t :: rest =>
      let (e, left) ← Descent.expr (t :: rest)
      return e :: (← descend left.val)
termination_by ts.length
decreasing_by exact left.property

end MiniLisp
