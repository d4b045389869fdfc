import MiniLisp.Proofs.Interpreter.NameCall

/-!
# Names as arguments

An argument is read before it is passed, unless it is a lambda or a name that is bound to
one: these are passed as they are.  For a name that is bound to a name no lambda is found
there, and it is read like any other.  Such a name does as an argument what the name does
that it is bound to, except when that one is bound to a lambda.  For then the lambda is
called, without arguments, instead of passed.
-/

namespace MiniLisp
namespace Eval

section Arguments

variable {call : Caller} {run : Run}

theorem forceArgs_append (call : Caller) (xs ys : List Value) :
    forceArgs call (xs ++ ys) = do
      let vs ← forceArgs call xs
      let ws ← forceArgs call ys
      return vs ++ ws := by
  induction xs with
  | nil => simp [forceArgs]
  | cons x xs ih => simp [forceArgs, ih]

/-- An argument may be replaced by one that does the same when its turn comes. -/
theorem forceArgs_congr {pre : List Value} {v w : Value}
    (h : ∀ vs middle, forceArgs call pre run = .ok vs middle →
      forceArg call v middle = forceArg call w middle) (post : List Value) :
    forceArgs call (pre ++ v :: post) run = forceArgs call (pre ++ w :: post) run := by
  rw [forceArgs_append, forceArgs_append]
  cases hpre : forceArgs call pre run with
  | error stop last => rw [EvalM.bind_error hpre, EvalM.bind_error hpre]
  | ok vs middle =>
      rw [EvalM.bind_ok hpre, EvalM.bind_ok hpre]
      apply EvalM.bind_congr
      exact EvalM.bind_congr (h vs middle hpre) _

theorem callNamed_congr {args args' : List Value}
    (h : forceArgs call args run = forceArgs call args' run) (callee : String) :
    callNamed call callee args run = callNamed call callee args' run := by
  unfold callNamed
  rw [EvalM.chain_bind, EvalM.chain_bind]
  cases run.chain.lookup callee with
  | error e => rfl
  | ok v =>
      cases v with
      | function f => exact EvalM.bind_congr h (call f)
      | _ => rfl

theorem forceArg_of_passed {f g : Function} (h : run.chain.passed? f = some g) :
    forceArg call (.function f) run = .ok (.function g) run := by
  rw [forceArg, EvalM.chain_bind, h]
  rfl

/-- A name is read, unless it is bound to a lambda. -/
theorem forceArg_of_read {name : String}
    (h : ∀ f, run.chain.get? name = some (.function f) → f.isLambda = false) (id : Identity) :
    forceArg call (.function (.deferred id name)) run = call (.deferred id name) [] run := by
  have hpassed : run.chain.passed? (.deferred id name) = none := by
    simp only [Chain.passed?]
    split
    next f hget => simp [h f hget]
    next => rfl
  rw [forceArg, EvalM.chain_bind, hpassed]

theorem forceArg_of_alias {x y : String} (h : run.chain.alias? x = some y) (id : Identity) :
    forceArg call (.function (.deferred id x)) run = call (.deferred id x) [] run := by
  obtain ⟨j, hget⟩ := Chain.alias?_eq_some.mp h
  apply forceArg_of_read
  intro f hf
  cases hget.symm.trans hf
  rfl

end Arguments
end Eval

section Fuel

variable {run : Run}

theorem call_deferred_congr {x y : String}
    (h : run.chain.follow maxDepth x = run.chain.follow maxDepth y) (fuel : Nat)
    (id j : Identity) (args : List Value) :
    call fuel (.deferred id x) args run = call fuel (.deferred j y) args run := by
  cases fuel with
  | zero => rfl
  | succ fuel =>
      change Eval.deferred (call fuel) x args run = Eval.deferred (call fuel) y args run
      rw [Eval.deferred_eq_reach, Eval.deferred_eq_reach, h]

/-- Reading a name that leads to a function is calling that function. -/
theorem call_deferred_of_leads {x y : String} {k : Nat} {f : Function}
    (hleads : run.chain.Leads k x y) (hk : k < maxDepth) (hend : run.chain.alias? y = none)
    (hget : run.chain.get? y = some (.function f)) (fuel : Nat) (id : Identity)
    (args : List Value) :
    call (fuel + 1) (.deferred id x) args run = call fuel f args run := by
  have hlast := Chain.follow_of_function hend hget
  have hfollow := (hleads.follow_of_end hend hk).trans hlast
  exact Eval.deferred_apply hfollow args

end Fuel

namespace Interpreter

section Lambda

variable {i : Interpreter} {e : ScopeId} {y : String} {f : Function}
  (hget : (i.forest.chain e).get? y = some (.function f)) (fuel : Nat) (id : Identity)
include hget

theorem within_forceArg_of_alias {a b : String} {k : Nat}
    (halias : (i.forest.chain e).alias? b = some a) (hleads : (i.forest.chain e).Leads k b y)
    (hk : k < maxDepth) (hend : (i.forest.chain e).alias? y = none) :
    i.within e (Eval.forceArg (call (fuel + 1)) (.function (.deferred id b))) =
      i.within e (call fuel f []) := by
  apply within_congr
  rw [Eval.forceArg_of_alias halias]
  exact call_deferred_of_leads hleads hk hend hget fuel id []

theorem within_forceArg_of_lambda (hi : i.forest.WellFormed) (he : e < i.forest.next)
    (hf : f.isLambda = true) :
    i.within e (Eval.forceArg (call fuel) (.function (.deferred id y))) =
      (.ok (.function f), i) := by
  have hpassed : (i.forest.chain e).passed? (.deferred id y) = some f := by
    simp [Chain.passed?, hget, hf]
  exact within_of_ok hi he (Eval.forceArg_of_passed hpassed)

end Lambda

/-- Let a name be bound to another when its turn comes as an argument, and let names lead
on from there to one that is not bound to a name.  In every call it may be replaced by the
name it is bound to, if that is not bound to a lambda itself.  If a lambda is at the end,
it is called without arguments, while the last name passes it uncalled. -/
theorem alias_argument (i : Interpreter) (hi : i.forest.Reachable) (e : ScopeId)
    (he : e < i.forest.next) (callee a b y : String) (pre post : List Value) (k fuel : Nat)
    (id j j' : Identity) :
    let before := (i.within e (Eval.forceArgs (call fuel) pre)).2
    let c := before.forest.chain e
    let passing arg := i.within e (call (fuel + 1) (.thunk id
      (.call callee (pre ++ .function arg :: post))) [])
    c.alias? b = some a → c.Leads k b y → k < maxDepth → c.alias? y = none →
      ((∀ f, c.get? a = some (.function f) → f.isLambda = false) →
          passing (.deferred j b) = passing (.deferred j' a)) ∧
        ∀ f, c.get? y = some (.function f) → f.isLambda = true → ∀ more,
          before.within e (Eval.forceArg (call (more + 1)) (.function (.deferred j b))) =
              before.within e (call more f []) ∧
            before.within e (Eval.forceArg (call more) (.function (.deferred j y))) =
              (.ok (.function f), before) := by
  intro before c passing halias hleads hk hend
  constructor
  · intro hread
    apply within_congr
    apply Eval.callNamed_congr
    apply Eval.forceArgs_congr
    intro vs middle hpre
    have hchain : c = middle.chain := by
      have hframed : (Eval.forceArgs (call fuel) pre).Framed :=
        EvalM.framed_closed.forceArgs (call_framed fuel) pre
      refine (chain_within hi.wellFormed he hframed).trans ?_
      rw [EvalM.after, hpre]
    rw [hchain] at halias hleads hend hread
    rw [Eval.forceArg_of_alias halias, Eval.forceArg_of_read hread]
    exact call_deferred_congr (hleads.follow_eq_of_alias hend halias hk) fuel j j' []
  · intro f hget hf more
    have hscope : e < before.forest.next := by
      simpa [before] using he
    exact ⟨within_forceArg_of_alias hget more j halias hleads hk hend,
      within_forceArg_of_lambda hget more j (wellFormed_within hi.wellFormed e _) hscope hf⟩

/-- A name that is two names away from a number is printed like the name in between. -/
theorem alias_argument_of_number :
    let bindings := (Bindings.standard.insert "n" (.int 7)).insert "a"
      (.function (.deferred 0 "n")) |>.insert "b" (.function (.deferred 1 "a"))
    let forest := Forest.empty.addRoot bindings
    let i : Interpreter := { Interpreter.new .standard with forest }
    let passing arg := i.within 0 (call 3 (.thunk 4
      (.call "print" ([.int 1] ++ .function arg :: [.int 2]))) [])
    i.forest.Reachable ∧ passing (.deferred 2 "b") = passing (.deferred 3 "a") ∧
      (passing (.deferred 2 "b")).2.console.output = "1 7 2\n" := by
  intro bindings forest i passing
  have hi : i.forest.Reachable := .addRoot _ .empty
  let c := (i.within 0 (Eval.forceArgs (call 2) [.int 1])).2.forest.chain 0
  have hb : c.alias? "b" = some "a" := by decide +kernel
  have ha : c.alias? "a" = some "n" := by decide +kernel
  have hn : c.alias? "n" = none := by decide +kernel
  obtain ⟨hsame, _⟩ := alias_argument i hi 0 (by decide) "print" "a" "b" "n" [.int 1] [.int 2]
    2 2 4 2 3 hb (.hop hb (.hop ha (.here "n"))) (by decide) hn
  refine ⟨hi, hsame ?_, by decide +kernel⟩
  intro f hf
  obtain ⟨id, hget⟩ := Chain.alias?_eq_some.mp ha
  cases hget.symm.trans hf
  rfl

/-- A function that applies its argument is passed the identity by its name and by another
name that is bound to this name. -/
theorem alias_argument_of_lambda :
    let identity : Function := .lambda 1 ["x"] [.function (.deferred 0 "x")]
    let apply : Function := .lambda 4 ["g"] [.function (.thunk 3 (.call "g" [.int 5]))]
    let bindings := ((∅ : Bindings).insert "identity" (.function identity)).insert "alias"
      (.function (.deferred 2 "identity")) |>.insert "apply" (.function apply)
    let forest := Forest.empty.addRoot bindings
    let i : Interpreter := { Interpreter.new .standard with forest }
    let passing name := i.within 0 (call 8 (.thunk 6
      (.call "apply" [.function (.deferred 5 name)])) [])
    i.forest.Reachable ∧ (i.forest.chain 0).alias? "alias" = some "identity" ∧
      (i.forest.chain 0).get? "identity" = some (.function identity) ∧
      (passing "identity").1 = .ok (.int 5) ∧
      (passing "alias").1 = .error (.failed (.notBound "x")) := by
  intro identity apply bindings forest i passing
  exact ⟨.addRoot _ .empty, by decide +kernel, rfl, rfl, rfl⟩

end Interpreter
end MiniLisp
