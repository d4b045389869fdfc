import MiniLisp.Proofs.Eval.Unsupported
import MiniLisp.Proofs.Interpreter.Loading

/-!
# What reading promises to the rest

An expression takes its names and its operators from tokens without a look at what they
carry.  For tokens that were read from a text this is safe.  All names are names then, and
in an interpreter that has loaded nothing but texts no operator is ever reported as one
without a meaning, except for those of subtraction and division.
-/

namespace MiniLisp
namespace Interpreter

theorem all_spelled_new (keywords : Keywords) : (new keywords).forest.All (·.isSpelled = true) :=
  Forest.All.addRoot .empty (Bindings.all_standard rfl rfl rfl fun _ => rfl)

theorem all_spelled_load {i : Interpreter} (hi : i.forest.All (·.isSpelled = true)) (fuel : Nat)
    (name source : String) : (i.load fuel name source).2.forest.All (·.isSpelled = true) := by
  cases hparse : parse (lex i.keywords source).tokens with
  | error e =>
      rw [i.load_of_error fuel name hparse]
      exact hi
  | ok es =>
      have hcode := (isSpelled_of_parse hparse).2 i.fresh
      rw [i.forest_load_of_ok fuel name hparse]
      exact hi.restore home (Program.run_spelled hcode (hi.chain home) fuel).2

theorem all_spelled_performAll (keywords : Keywords) (fuel : Nat) (ops : List Operation) :
    ((new keywords).performAll fuel ops).forest.All (·.isSpelled = true) :=
  forest_performAll (fun _ name source hi => all_spelled_load hi fuel name source)
    (all_spelled_new keywords) ops

/-- The tokens of a text carry what their kinds promise, quotes and the texts between them
stand in groups, and a group is incomplete at the end exactly if the last diagnostic says
so.  In the program that the tokens are compiled to, all names that stem from identifiers
are names, and once nothing but texts has been loaded, only two operators can be
reported. -/
theorem token_contract (i : Interpreter) (source : String) :
    let lexed := lex i.keywords source
    (∀ t ∈ lexed.tokens, t.Fits i.keywords ∧ t.kind ≠ .conditional) ∧
      (∃ left, Token.Grouped left lexed.tokens ∧ ∀ quote, left = some quote ↔
        ∃ line, lexed.diagnostics.getLast? = some ⟨line, .unterminatedString quote⟩) ∧
      (∀ program, (i.compile lexed.tokens).1 = .ok program →
        (∃ es, Expr.RendersUnit es lexed.tokens ∧ List.Forall₂ Expr.CompilesTo es program ∧
          ∀ e ∈ es, e.isSpelled = true) ∧
        ∀ f ∈ program, f.isSpelled = true) ∧
      ∀ keywords fuel ops, i = (new keywords).performAll fuel ops → ∀ fuel' name op,
        (i.load fuel' name source).1 = .error (.eval (.failed (.unsupportedOperator op))) →
          op = '-' ∨ op = '/' := by
  intro lexed
  obtain ⟨left, htidy⟩ : ∃ left, lexed.Tidy i.keywords left :=
    Lexed.tidy_ofText i.keywords 1 source.toList
  refine ⟨?_, ⟨left, htidy.grouped, htidy.left_eq_some_iff⟩, ?_, ?_⟩
  · intro t ht
    exact ⟨htidy.fits t ht, (htidy.fits t ht).kind_ne_conditional⟩
  · intro program hprogram
    obtain ⟨es, hparse, rfl⟩ := compile_eq_ok.mp hprogram
    obtain ⟨hes, hcode⟩ := isSpelled_of_parse hparse
    exact ⟨⟨es, parse_eq_ok_iff_renders.mp hparse, compileAll_compilesTo es i.fresh, hes⟩,
      hcode i.fresh⟩
  · rintro keywords fuel ops rfl fuel' name op hload
    obtain ⟨es, last, hparse, hrun, _⟩ := load_eq_eval_error hload
    have hforest := all_spelled_performAll keywords fuel ops
    have hcode := (isSpelled_of_parse hparse).2
    exact (Program.run_spelled (hcode _) (hforest.chain home) fuel').1 op last hrun

/-- A division inside a lambda is reported when the lambda is called. -/
theorem token_contract_division :
    let i := new .standard
    let source := "(define f (lambda (x) (/ x 'a')))(f 1)"
    (i.load 3 "unit" source).1 = .error (.eval (.failed (.unsupportedOperator '/'))) ∧
      (∃ left, Token.Grouped left (lex .standard source).tokens ∧ ∀ quote, left = some quote ↔
        ∃ line, (lex .standard source).diagnostics.getLast? =
          some ⟨line, .unterminatedString quote⟩) ∧
      ∀ fuel op, (i.load fuel "unit" source).1 =
        .error (.eval (.failed (.unsupportedOperator op))) → op = '-' ∨ op = '/' := by
  intro i source
  have hsplit : Lexeme.split source.toList =
      [.symbol .lparen '(', .word "define".toList, .blank [' '], .word ['f'], .blank [' '],
        .symbol .lparen '(', .word "lambda".toList, .blank [' '], .symbol .lparen '(',
        .word ['x'], .symbol .rparen ')', .blank [' '], .symbol .lparen '(',
        .symbol .arith '/', .blank [' '], .word ['x'], .blank [' '], .string '\'' ['a'],
        .symbol .rparen ')', .symbol .rparen ')', .symbol .rparen ')', .symbol .lparen '(',
        .word ['f'], .blank [' '], .number ['1'] [], .symbol .rparen ')'] := by
    decide +kernel
  have hparse : parse (lex i.keywords source).tokens =
      .ok [.define (.name (.str "f")) (.expr (.lambda ["x"]
        [.expr (.arith '/' [.name (.str "x"), .literal (.str "a")])])),
        .call "f" [.literal (.int 1)]] := by
    change parse (lex .standard source).tokens = _
    rw [lex, hsplit]
    rfl
  have hload : (i.load 3 "unit" source).1 =
      .error (.eval (.failed (.unsupportedOperator '/'))) := by
    rw [i.load_of_ok 3 "unit" hparse]
    rfl
  obtain ⟨_, hgrouped, _, hreported⟩ := token_contract i source
  exact ⟨hload, hgrouped, fun fuel op => hreported .standard 0 [] rfl fuel "unit" op⟩

end Interpreter
end MiniLisp
