import MiniLisp.Interpreter
import MiniLisp.Proofs.Expr.Reading

/-!
# What a unit is compiled to

The relation `Expr.CompilesTo` says which functions an expression may be compiled
to; they differ in their identities only.  An interpreter compiles a sequence of
tokens exactly if it spells a sequence of expressions, and then these expressions
are known from the tokens alone and the program has one function for each of them.
-/

namespace MiniLisp

mutual

inductive Element.CompilesTo : Element → Value → Prop
  | literal (payload : Value) : Element.CompilesTo (.literal payload) payload
  | name (id : Identity) (payload : Value) :
      Element.CompilesTo (.name payload) (.function (.deferred id (payload.asText?.getD "")))
  | expr {e : Expr} {f : Function} : Expr.CompilesTo e f →
      Element.CompilesTo (.expr e) (.function f)

/-- The element in the position of a name to bind: a name stands for itself. -/
inductive Element.TargetsTo : Element → Value → Prop
  | literal (payload : Value) : Element.TargetsTo (.literal payload) payload
  | name (payload : Value) : Element.TargetsTo (.name payload) payload
  | expr {e : Expr} {f : Function} : Expr.CompilesTo e f →
      Element.TargetsTo (.expr e) (.function f)

inductive Element.CompileAllTo : List Element → List Value → Prop
  | nil : Element.CompileAllTo [] []
  | cons {x : Element} {xs : List Element} {v : Value} {vs : List Value} :
      Element.CompilesTo x v → Element.CompileAllTo xs vs →
      Element.CompileAllTo (x :: xs) (v :: vs)

inductive Expr.CompilesTo : Expr → Function → Prop
  | empty (id : Identity) : Expr.CompilesTo .empty (.thunk id .empty)
  | add (id : Identity) {xs : List Element} {vs : List Value} :
      Element.CompileAllTo xs vs →
      Expr.CompilesTo (.arith '+' xs) (.thunk id (.arith .add vs))
  | mul (id : Identity) {xs : List Element} {vs : List Value} :
      Element.CompileAllTo xs vs →
      Expr.CompilesTo (.arith '*' xs) (.thunk id (.arith .mul vs))
  | unsupported (id : Identity) {op : Char} (xs : List Element) : op ≠ '+' → op ≠ '*' →
      Expr.CompilesTo (.arith op xs) (.thunk id (.unsupported op))
  | cond (id : Identity) {test yes no : Element} {testV yesV noV : Value} :
      Element.CompilesTo test testV → Element.CompilesTo yes yesV →
      Element.CompilesTo no noV →
      Expr.CompilesTo (.cond test yes no) (.thunk id (.cond testV yesV noV))
  | define (id : Identity) {target value : Element} {targetV valueV : Value} :
      Element.TargetsTo target targetV → Element.CompilesTo value valueV →
      Expr.CompilesTo (.define target value) (.thunk id (.define targetV valueV))
  | set (id : Identity) {target value : Element} {targetV valueV : Value} :
      Element.TargetsTo target targetV → Element.CompilesTo value valueV →
      Expr.CompilesTo (.set target value) (.thunk id (.set targetV valueV))
  | lambda (id : Identity) (params : List String) {xs : List Element} {vs : List Value} :
      Element.CompileAllTo xs vs → Expr.CompilesTo (.lambda params xs) (.lambda id params vs)
  | begin (id : Identity) {xs : List Element} {vs : List Value} :
      Element.CompileAllTo xs vs → Expr.CompilesTo (.begin xs) (.thunk id (.begin vs))
  | list (id : Identity) {xs : List Element} {vs : List Value} :
      Element.CompileAllTo xs vs → Expr.CompilesTo (.list xs) (.thunk id (.list vs))
  | call (id : Identity) (callee : String) {xs : List Element} {vs : List Value} :
      Element.CompileAllTo xs vs →
      Expr.CompilesTo (.call callee xs) (.thunk id (.call callee vs))

end

theorem Expr.CompilesTo.ofArith (id : Identity) (op : Char) {xs : List Element}
    {vs : List Value} (hxs : Element.CompileAllTo xs vs) :
    Expr.CompilesTo (.arith op xs) (.thunk id (.ofArith op vs)) := by
  by_cases hadd : op = '+'
  · subst hadd
    exact .add id hxs
  · by_cases hmul : op = '*'
    · subst hmul
      exact .mul id hxs
    · have hform : Form.ofArith op vs = .unsupported op := by
        unfold Form.ofArith
        split
        · contradiction
        · contradiction
        · rfl
      rw [hform]
      exact .unsupported id xs hadd hmul

mutual

theorem Element.compilesTo_compile (x : Element) (n : Identity) :
    Element.CompilesTo x (x.compile n).1 := by
  cases x with
  | literal payload => exact .literal payload
  | name payload => exact .name n payload
  | expr e => exact .expr (Expr.compilesTo_compile e n)

theorem Element.targetsTo_compileTarget (x : Element) (n : Identity) :
    Element.TargetsTo x (x.compileTarget n).1 := by
  cases x with
  | literal payload => exact .literal payload
  | name payload => exact .name payload
  | expr e => exact .expr (Expr.compilesTo_compile e n)

theorem Element.compileAllTo_compileAll (xs : List Element) (n : Identity) :
    Element.CompileAllTo xs (Element.compileAll xs n).1 := by
  cases xs with
  | nil => exact .nil
  | cons x xs =>
      exact .cons (Element.compilesTo_compile x n) (Element.compileAllTo_compileAll xs _)

theorem Expr.compilesTo_compile (e : Expr) (n : Identity) :
    Expr.CompilesTo e (e.compile n).1 := by
  cases e with
  | empty => exact .empty n
  | arith op operands => exact .ofArith _ op (Element.compileAllTo_compileAll operands n)
  | cond test yes no =>
      exact .cond _ (Element.compilesTo_compile test n) (Element.compilesTo_compile yes _)
        (Element.compilesTo_compile no _)
  | define target value =>
      exact .define _ (Element.targetsTo_compileTarget target n)
        (Element.compilesTo_compile value _)
  | set target value =>
      exact .set _ (Element.targetsTo_compileTarget target n)
        (Element.compilesTo_compile value _)
  | lambda params body => exact .lambda _ params (Element.compileAllTo_compileAll body n)
  | begin body => exact .begin _ (Element.compileAllTo_compileAll body n)
  | list items => exact .list _ (Element.compileAllTo_compileAll items n)
  | call callee args => exact .call _ callee (Element.compileAllTo_compileAll args n)

end

theorem compileAll_compilesTo (es : List Expr) (n : Identity) :
    List.Forall₂ Expr.CompilesTo es (compileAll es n).1 := by
  induction es generalizing n with
  | nil => exact .nil
  | cons e es ih => exact .cons (e.compilesTo_compile n) (ih _)

namespace Interpreter

theorem compile_eq_ok {i : Interpreter} {ts : List Token} {program : Program} :
    (i.compile ts).1 = .ok program ↔
      ∃ es, parse ts = .ok es ∧ (compileAll es i.fresh).1 = program := by
  unfold compile
  cases parse ts with
  | error e =>
      constructor
      · intro h
        cases h
      · rintro ⟨es, hes, _⟩
        cases hes
  | ok es =>
      constructor
      · intro h
        cases h
        exact ⟨es, rfl, rfl⟩
      · rintro ⟨es', hes, rfl⟩
        cases hes
        rfl

theorem compile_accepts_grammar (i : Interpreter) (ts : List Token) :
    ((∃ program, (i.compile ts).1 = .ok program) ↔ ∃ es, Expr.RendersUnit es ts) ∧
      ∀ program, (i.compile ts).1 = .ok program →
        ∃ es, Expr.RendersUnit es ts ∧ (∀ es', Expr.RendersUnit es' ts → es' = es) ∧
          List.Forall₂ Expr.CompilesTo es program := by
  refine ⟨⟨?_, ?_⟩, ?_⟩
  · rintro ⟨program, hprogram⟩
    obtain ⟨es, hes, _⟩ := compile_eq_ok.mp hprogram
    exact ⟨es, parse_eq_ok_iff_renders.mp hes⟩
  · rintro ⟨es, hes⟩
    exact ⟨_, compile_eq_ok.mpr ⟨es, parse_eq_ok_iff_renders.mpr hes, rfl⟩⟩
  · intro program hprogram
    obtain ⟨es, hes, rfl⟩ := compile_eq_ok.mp hprogram
    have hrenders := parse_eq_ok_iff_renders.mp hes
    exact ⟨es, hrenders, fun es' hes' => hrenders.unique hes',
      compileAll_compilesTo es i.fresh⟩

/-- The tokens of `(set! 'x (lambda (y) (* y 2 ')))`. -/
def assignedLambda : List Token :=
  [⟨.lparen, .str "(", 1⟩, ⟨.keyword, .str "set", 1⟩, ⟨.not, .str "!", 1⟩,
    ⟨.quote, .str "'", 1⟩, ⟨.identifier, .str "x", 1⟩, ⟨.lparen, .str "(", 1⟩,
    ⟨.keyword, .str "lambda", 1⟩, ⟨.lparen, .str "(", 1⟩, ⟨.identifier, .str "y", 1⟩,
    ⟨.rparen, .str ")", 1⟩, ⟨.lparen, .str "(", 1⟩, ⟨.arith, .str "*", 1⟩,
    ⟨.identifier, .str "y", 1⟩, ⟨.int, .int 2, 1⟩, ⟨.quote, .str "'", 1⟩,
    ⟨.rparen, .str ")", 1⟩, ⟨.rparen, .str ")", 1⟩, ⟨.rparen, .str ")", 1⟩]

theorem compile_assigned_lambda :
    let product := Function.thunk 1 (.arith .mul [.function (.deferred 0 "y"), .int 2])
    let program := [Function.thunk 3 (.set (.str "x")
      (.function (.lambda 2 ["y"] [.function product])))]
    ((new .standard).compile assignedLambda).1 = .ok program ∧
      ∃ es, Expr.RendersUnit es assignedLambda ∧
        (∀ es', Expr.RendersUnit es' assignedLambda → es' = es) ∧
        List.Forall₂ Expr.CompilesTo es program := by
  intro product program
  have hcompile : ((new .standard).compile assignedLambda).1 = .ok program := rfl
  exact ⟨hcompile, (compile_accepts_grammar _ _).2 program hcompile⟩

end Interpreter
end MiniLisp
