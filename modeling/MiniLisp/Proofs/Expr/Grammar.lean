import Mathlib.Data.List.Forall2
import MiniLisp.Expr.Reader

/-!
# The grammar of expressions

Which tokens spell which expression.  An expression stands in parentheses; after
the opening one comes its head, and after that its elements.  Quotes may stand
before an element and after the last one.  They carry no meaning, and so the same
expression has many spellings.
-/

namespace MiniLisp

/-- Numbers and strings. -/
def TokenKind.isLiteral : TokenKind → Bool
  | .int | .num | .float | .str => true
  | _ => false

/-- A keyword with the given spelling. -/
def Token.IsWord (t : Token) (word : String) : Prop :=
  t.kind = .keyword ∧ t.name = word

def Token.AllOf (kind : TokenKind) (ts : List Token) : Prop :=
  ∀ t ∈ ts, t.kind = kind

namespace Token.AllOf

variable {kind : TokenKind} {t : Token} {ts : List Token}

theorem nil : Token.AllOf kind [] :=
  fun _ ht => nomatch ht

theorem head (h : Token.AllOf kind (t :: ts)) : t.kind = kind :=
  h t List.mem_cons_self

theorem tail (h : Token.AllOf kind (t :: ts)) : Token.AllOf kind ts :=
  fun s hs => h s (List.mem_cons_of_mem t hs)

theorem snoc (hts : Token.AllOf kind ts) (ht : t.kind = kind) :
    Token.AllOf kind (ts ++ [t]) := by
  intro s hs
  rcases List.mem_append.mp hs with hs | hs
  · exact hts s hs
  · rw [List.mem_singleton.mp hs]
    exact ht

end Token.AllOf

mutual

inductive Element.Renders : Element → List Token → Prop
  | literal {t : Token} : t.kind.isLiteral = true → Element.Renders (.literal t.value) [t]
  | name {t : Token} : t.kind = .identifier → Element.Renders (.name t.value) [t]
  | expr {e : Expr} {ts : List Token} : Expr.Renders e ts → Element.Renders (.expr e) ts

/-- A sequence of elements, with quotes before each of them and after the last. -/
inductive Element.RendersAll : List Element → List Token → Prop
  | nil {quotes : List Token} : Token.AllOf .quote quotes → Element.RendersAll [] quotes
  | cons {x : Element} {xs : List Element} {quotes ts rest : List Token} :
      Token.AllOf .quote quotes → Element.Renders x ts → Element.RendersAll xs rest →
      Element.RendersAll (x :: xs) (quotes ++ ts ++ rest)

inductive Expr.Renders : Expr → List Token → Prop
  | empty {l r : Token} : l.kind = .lparen → r.kind = .rparen → Expr.Renders .empty [l, r]
  | arith {l op r : Token} {xs : List Element} {ts : List Token} :
      l.kind = .lparen → op.kind = .arith → Element.RendersAll xs ts →
      (op.operator = '*' → 2 ≤ xs.length) → r.kind = .rparen →
      Expr.Renders (.arith op.operator xs) ([l, op] ++ ts ++ [r])
  | cond {l word r : Token} {test yes no : Element} {ts : List Token} :
      l.kind = .lparen → word.IsWord "if" → Element.RendersAll [test, yes, no] ts →
      r.kind = .rparen → Expr.Renders (.cond test yes no) ([l, word] ++ ts ++ [r])
  | define {l word r : Token} {target value : Element} {ts : List Token} :
      l.kind = .lparen → word.IsWord "define" → Element.RendersAll [target, value] ts →
      r.kind = .rparen → Expr.Renders (.define target value) ([l, word] ++ ts ++ [r])
  | set {l word r : Token} {target value : Element} {bang ts : List Token} :
      l.kind = .lparen → word.IsWord "set" → Token.AllOf .not bang → bang.length ≤ 1 →
      Element.RendersAll [target, value] ts → r.kind = .rparen →
      Expr.Renders (.set target value) ([l, word] ++ bang ++ ts ++ [r])
  | lambda {l word l' r' r : Token} {params : List Token} {xs : List Element}
      {ts : List Token} :
      l.kind = .lparen → word.IsWord "lambda" → l'.kind = .lparen →
      Token.AllOf .identifier params → r'.kind = .rparen → xs ≠ [] →
      Element.RendersAll xs ts → r.kind = .rparen →
      Expr.Renders (.lambda (params.map Token.name) xs)
        ([l, word, l'] ++ params ++ [r'] ++ ts ++ [r])
  | begin {l word r : Token} {xs : List Element} {ts : List Token} :
      l.kind = .lparen → word.IsWord "begin" → xs ≠ [] → Element.RendersAll xs ts →
      r.kind = .rparen → Expr.Renders (.begin xs) ([l, word] ++ ts ++ [r])
  | list {l word r : Token} {xs : List Element} {ts : List Token} :
      l.kind = .lparen → word.IsWord "list" → Element.RendersAll xs ts →
      r.kind = .rparen → Expr.Renders (.list xs) ([l, word] ++ ts ++ [r])
  | call {l callee r : Token} {xs : List Element} {ts : List Token} :
      l.kind = .lparen → callee.kind = .identifier → Element.RendersAll xs ts →
      r.kind = .rparen → Expr.Renders (.call callee.name xs) ([l, callee] ++ ts ++ [r])

end

/-- The tokens of a unit are the tokens of its expressions, one after the other. -/
def Expr.RendersUnit (es : List Expr) (ts : List Token) : Prop :=
  ∃ parts, List.Forall₂ Expr.Renders es parts ∧ ts = parts.flatten

theorem Expr.RendersUnit.nil : Expr.RendersUnit [] [] :=
  ⟨[], .nil, rfl⟩

theorem Expr.RendersUnit.snoc {es : List Expr} {e : Expr} {ts part : List Token}
    (hes : Expr.RendersUnit es ts) (he : Expr.Renders e part) :
    Expr.RendersUnit (es ++ [e]) (ts ++ part) := by
  obtain ⟨parts, hparts, rfl⟩ := hes
  refine ⟨parts ++ [part], List.rel_append hparts (.cons he .nil), ?_⟩
  simp

namespace Element.RendersAll

theorem nil_nil : Element.RendersAll [] [] :=
  .nil .nil

theorem quote {xs : List Element} {ts : List Token} {t : Token}
    (hxs : Element.RendersAll xs ts) (ht : t.kind = .quote) :
    Element.RendersAll xs (ts ++ [t]) := by
  induction xs generalizing ts with
  | nil =>
      cases hxs with
      | nil hquotes => exact .nil (hquotes.snoc ht)
  | cons x xs ih =>
      cases hxs with
      | cons hquotes hx hrest =>
          rw [List.append_assoc _ _ [t]]
          exact .cons hquotes hx (ih hrest)

theorem snoc {xs : List Element} {x : Element} {ts part : List Token}
    (hxs : Element.RendersAll xs ts) (hx : Element.Renders x part) :
    Element.RendersAll (xs ++ [x]) (ts ++ part) := by
  induction xs generalizing ts with
  | nil =>
      cases hxs with
      | nil hquotes => simpa using Element.RendersAll.cons hquotes hx nil_nil
  | cons y ys ih =>
      cases hxs with
      | cons hquotes hy hrest =>
          rw [List.append_assoc _ _ part]
          exact .cons hquotes hy (ih hrest)

end Element.RendersAll

/-! ## Heads -/

/-- The tokens of an open expression up to its head, with the line of the head. -/
inductive Head.Opens : Head → Nat → List Token → Prop
  | arith {l op : Token} : l.kind = .lparen → op.kind = .arith →
      Opens (.arith op.operator) op.line [l, op]
  | cond {l word : Token} : l.kind = .lparen → word.IsWord "if" →
      Opens .cond word.line [l, word]
  | define {l word : Token} : l.kind = .lparen → word.IsWord "define" →
      Opens .define word.line [l, word]
  | set {l word : Token} {bang : List Token} : l.kind = .lparen → word.IsWord "set" →
      Token.AllOf .not bang → bang.length ≤ 1 → Opens .set word.line ([l, word] ++ bang)
  | lambda {l word l' r' : Token} {params : List Token} : l.kind = .lparen →
      word.IsWord "lambda" → l'.kind = .lparen → Token.AllOf .identifier params →
      r'.kind = .rparen →
      Opens (.lambda (params.map Token.name)) word.line ([l, word, l'] ++ params ++ [r'])
  | begin {l word : Token} : l.kind = .lparen → word.IsWord "begin" →
      Opens .begin word.line [l, word]
  | list {l word : Token} : l.kind = .lparen → word.IsWord "list" →
      Opens .list word.line [l, word]
  | call {l callee : Token} : l.kind = .lparen → callee.kind = .identifier →
      Opens (.call callee.name) callee.line [l, callee]

/-- What is built at a closing parenthesis is spelled by the tokens since the
opening one. -/
theorem Expr.Renders.of_build {head : Head} {line : Nat} {opening ts : List Token}
    {xs : List Element} {e : Expr} {r : Token} (hopens : head.Opens line opening)
    (hxs : Element.RendersAll xs ts) (hbuild : head.build line xs = .ok e)
    (hr : r.kind = .rparen) : Expr.Renders e (opening ++ ts ++ [r]) := by
  cases hopens with
  | arith hl hop =>
      simp only [Head.build] at hbuild
      split at hbuild
      next => cases hbuild
      next harity =>
        cases hbuild
        refine .arith hl hop hxs (fun hstar => ?_) hr
        by_contra hfew
        exact harity ⟨hstar, Nat.lt_of_not_le hfew⟩
  | cond hl hword =>
      match xs, hbuild with
      | [test, yes, no], hbuild =>
          cases hbuild
          exact .cond hl hword hxs hr
  | define hl hword =>
      match xs, hbuild with
      | [target, value], hbuild =>
          cases hbuild
          exact .define hl hword hxs hr
  | set hl hword hbang hlength =>
      match xs, hbuild with
      | [target, value], hbuild =>
          cases hbuild
          exact .set hl hword hbang hlength hxs hr
  | lambda hl hword hl' hparams hr' =>
      match xs, hbuild with
      | x :: xs, hbuild =>
          cases hbuild
          exact .lambda hl hword hl' hparams hr' (List.cons_ne_nil x xs) hxs hr
  | begin hl hword =>
      match xs, hbuild with
      | x :: xs, hbuild =>
          cases hbuild
          exact .begin hl hword (List.cons_ne_nil x xs) hxs hr
  | list hl hword =>
      cases hbuild
      exact .list hl hword hxs hr
  | call hl hcallee =>
      cases hbuild
      exact .call hl hcallee hxs hr

end MiniLisp
