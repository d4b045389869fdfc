import MiniLisp.Interpreter
import MiniLisp.Proofs.Eval.Termination

/-!
# Tame programs end

In a forest without thunks, every tame program and every lambda with tame code ends,
in whatever scope it is started, and leaves a forest without thunks behind.
-/

namespace MiniLisp
namespace Interpreter

/-- From some amount of fuel on, a computation in a scope ends in one and the same
way: with a value or an evaluation error, in a forest without thunks. -/
def Ends (i : Interpreter) (e : ScopeId) (m : Nat → EvalM Value) : Prop :=
  ∃ fuel outcome, (∀ more ≥ fuel, i.within e (m more) = outcome) ∧
    outcome.1 ≠ .error .outOfFuel ∧ outcome.2.forest.Storable

theorem ends_of_settles {i : Interpreter} (hi : i.forest.Storable) {e : ScopeId}
    {m : Nat → EvalM Value} {Q : Value → Prop}
    (h : ∀ run : Run, run.Sound (i.forest.depth e) → Settles (i.forest.depth e) m run Q) :
    i.Ends e m := by
  have hstart : Run.Sound (i.forest.depth e) ⟨i.forest.chain e, i.console⟩ :=
    ⟨i.forest.depth_chain e, hi.chain e⟩
  obtain ⟨fuel, result, hfuel, hfinished⟩ := h _ hstart
  cases hfinished with
  | @value v run _ hrun =>
      refine ⟨fuel, (.ok v, { i with
        forest := i.forest.restore e run.chain, console := run.console }), ?_, ?_, ?_⟩
      · intro more hmore
        simp only [within, hfuel more hmore]
      · intro heq
        cases heq
      · exact hi.restore e hrun.storable
  | @failure error run hrun =>
      refine ⟨fuel, (.error (.failed error), { i with
        forest := i.forest.restore e run.chain, console := run.console }), ?_, ?_, ?_⟩
      · intro more hmore
        simp only [within, hfuel more hmore]
      · intro heq
        cases heq
      · exact hi.restore e hrun.storable

/-- In a forest without thunks tame code ends: every expression of a tame program,
the program as a whole, and every stored or passed lambda with any arguments that
may be stored. -/
theorem tame_code_ends (i : Interpreter) (hi : i.forest.Storable) (e : ScopeId) :
    (∀ (es : List Expr) (n : Identity), (∀ x ∈ es, x.tame = true) →
      (∀ f ∈ (compileAll es n).1, i.Ends e (call · f [])) ∧
        i.Ends e (Program.run · (compileAll es n).1)) ∧
      ∀ (id : Identity) (params : List String) (body args : List Value),
        (Value.function (.lambda id params body)).Storable → (∀ v ∈ args, v.Storable) →
          i.Ends e (call · (.lambda id params body) args) := by
  constructor
  · intro es n htame
    have hplain := plain_compileAll es htame n
    constructor
    · intro f hf
      exact ends_of_settles hi (forceSettles_of_plain (callsSettle _) (hplain f hf))
    · exact ends_of_settles hi fun run hrun =>
        settles_runFrom hplain hrun 0 (.data rfl)
  · intro id params body args hlambda hargs
    exact ends_of_settles hi fun run hrun =>
      callsSettle _ _ args run hlambda hargs hrun

/-- A lambda that calls itself without end, and two names that stand for each other,
in the standard environment. -/
theorem tame_recursion_ends :
    let loop : Expr := .lambda ["n"] [.expr (.call "f" [.name (.str "n")])]
    let es : List Expr :=
      [.define (.name (.str "f")) (.expr loop), .define (.name (.str "a")) (.name (.str "b")),
        .define (.name (.str "b")) (.name (.str "a")), .call "f" [.name (.str "a")]]
    let i := new .standard
    i.forest.Storable ∧ (∀ x ∈ es, x.tame = true) ∧
      i.Ends home (Program.run · (compileAll es 0).1) ∧
      i.Ends home (call · (.lambda 0 ["x"] [.function (.deferred 1 "x")])
        [.function (.lambda 2 [] [.int 1])]) := by
  intro loop es i
  have hi : i.forest.Storable := Forest.Storable.addRoot .empty Bindings.storable_standard
  have htame : ∀ x ∈ es, x.tame = true := by decide
  have hinner : (Value.function (.lambda 2 [] [.int 1])).Storable :=
    ⟨.lambda 2 [] (List.forall_mem_singleton.mpr (.data rfl)), rfl⟩
  have houter : (Value.function (.lambda 0 ["x"] [.function (.deferred 1 "x")])).Storable :=
    ⟨.lambda 0 ["x"] (List.forall_mem_singleton.mpr (.deferred 1 "x")), rfl⟩
  obtain ⟨hprograms, hlambdas⟩ := tame_code_ends i hi home
  exact ⟨hi, htame, (hprograms es 0 htame).2,
    hlambdas 0 ["x"] _ _ houter (List.forall_mem_singleton.mpr hinner)⟩

end Interpreter
end MiniLisp
