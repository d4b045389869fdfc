import MiniLisp.Token.Basic

/-!
# Expressions

A source unit is a sequence of parenthesized expressions.  An `Expr` is one of
them as it was read: the form it has, and its elements in order.  Lines, quotes
and the spelling of the head leave no trace in it.
-/

namespace MiniLisp

mutual

/-- An operand of an expression. -/
inductive Element where
  /-- A number or a string; the payload of its token. -/
  | literal (payload : Value)
  /-- A name; the payload of its token, which is its spelling. -/
  | name (payload : Value)
  | expr (e : Expr)

/-- A parenthesized expression. -/
inductive Expr where
  | empty
  | arith (op : Char) (operands : List Element)
  | cond (test yes no : Element)
  | define (target value : Element)
  | set (target value : Element)
  | lambda (params : List String) (body : List Element)
  | begin (body : List Element)
  | list (items : List Element)
  | call (callee : String) (args : List Element)

end

instance : Inhabited Expr := ⟨.empty⟩
instance : Inhabited Element := ⟨.expr .empty⟩

namespace Token

/-- The name that a token stands for; a payload without text has the empty
one. -/
def name (t : Token) : String :=
  t.text?.getD ""

/-- The operator that a token stands for: the first character of its text. -/
def operator (t : Token) : Char :=
  (t.name.toList.head?).getD '?'

end Token
end MiniLisp
