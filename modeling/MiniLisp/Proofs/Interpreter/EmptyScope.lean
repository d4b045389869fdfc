import MiniLisp.Interpreter
import MiniLisp.Proofs.Eval.Simulation
import MiniLisp.Proofs.Scope.Padding

/-!
# An empty scope is invisible

A lambda without parameters runs its body in an empty scope.  If nothing that is
called on the way defines a name, that scope stays empty, and the body does there
what it does outside: the lambda may be replaced by its body.  The one difference is
the depth, which is greater by one in all of the run, so that the lambda may find no
room where its body alone still finds some.
-/

namespace MiniLisp

/-! ## Code without definitions -/

mutual

/-- Whether a definition occurs in code that may come to be called.  What stands in
the place of a name, or in a list, is never called. -/
def Value.defines : Value → Bool
  | .function f => f.defines
  | _ => false

def Function.defines : Function → Bool
  | .thunk _ form => form.defines
  | .lambda _ _ body => Value.anyDefines body
  | .deferred .. | .native _ | .host _ _ _ none => false
  | .host _ _ _ (some v) => v.defines

def Form.defines : Form → Bool
  | .empty | .unsupported _ => false
  | .arith _ vs | .begin vs | .list vs | .call _ vs => Value.anyDefines vs
  | .cond test yes no => test.defines || yes.defines || no.defines
  | .define .. => true
  | .set _ v => v.defines

def Value.anyDefines : List Value → Bool
  | [] => false
  | v :: vs => v.defines || Value.anyDefines vs

end

theorem Value.anyDefines_eq_false {vs : List Value} :
    Value.anyDefines vs = false ↔ ∀ v ∈ vs, v.defines = false := by
  induction vs with
  | nil => simp [Value.anyDefines]
  | cons v vs ih => simp [Value.anyDefines, ih]

theorem Value.defines_of_isFunction {v : Value} (h : v.isFunction = false) :
    v.defines = false := by
  cases v with
  | function f => cases h
  | _ => rfl

theorem Function.defines_of_mem_parts {f : Function} (hf : f.defines = false) {v : Value}
    (hv : v ∈ f.parts) : v.defines = false := by
  cases f with
  | thunk id form =>
      cases form with
      | empty | unsupported _ => cases hv
      | arith _ _ | list _ | call _ _ | begin _ => exact Value.anyDefines_eq_false.mp hf v hv
      | cond test yes no =>
          simp only [Function.defines, Form.defines, Bool.or_eq_false_iff] at hf
          simp only [Function.parts, Form.parts, Form.values, List.mem_cons, List.not_mem_nil,
            or_false] at hv
          rcases hv with rfl | rfl | rfl
          · exact hf.1.1
          · exact hf.1.2
          · exact hf.2
      | define target value => cases hf
      | set target value =>
          rw [List.mem_singleton.mp hv]
          exact hf
  | lambda id params body => exact Value.anyDefines_eq_false.mp hf v hv
  | _ => cases hv

/-- Nothing that is called defines a name. -/
def Discipline.definitionFree : Discipline where
  callable f := f.defines = false
  code v := v.defines = false
  arg v := v.defines = false
  result v := v.defines = false
  callable_of_code h := h
  values hf hv := Function.defines_of_mem_parts hf (Function.values_subset_parts _ hv)
  steps hf hg := Function.defines_of_mem_parts hf (Function.steps_subset_parts _ hg)
  arg_of_result h := h
  arg_of_lambda _ h := h
  result_of_code _ h := h
  result_of_atom h := Value.defines_of_isFunction (Value.isFunction_of_isAtom h)
  result_list _ := rfl
  result_define h := by cases h
  result_host h := h
  result_host_args _ _ := rfl

/-! ## The run inside and the run outside -/

/-- The first run has an empty scope in its chain that the second does not have. -/
def Simulation.withoutEmptyScope : Simulation .definitionFree where
  related n r s := r.chain.Padded n s.chain ∧ r.console = s.console ∧
    r.chain.All (·.defines = false)
  excused stop := stop = .failed .stackOverflow
  get? h := h.1.get?
  bound h hname := h.2.2.get? hname
  hasRoom := by
    intro n r s h
    have hdepth := h.1.depth_eq
    unfold Chain.hasRoom
    by_cases hroom : s.chain.depth < maxDepth
    · exact .inr ⟨decide_eq_true hroom, rfl⟩
    · have hroom' : ¬ r.chain.depth < maxDepth := by omega
      simp only [hroom, hroom', true_or]
  write h f := ⟨h.1, congrArg f h.2.1, h.2.2⟩
  define _ hf := by cases hf
  set := by
    intro n r s v h hv name
    rcases h.1.set name v with ⟨c, d, hc, hd, hpadded⟩ | ⟨hc, hd⟩
    · rw [hc, hd]
      exact .ok ⟨hpadded, h.2.1, h.2.2.set hv hc⟩
    · rw [hc, hd]
      exact .error _
  push h _ hbindings := ⟨h.1.push _, h.2.1, h.2.2.push hbindings⟩
  pop h := ⟨h.1.pop, h.2.1, h.2.2.pop⟩

/-- A call of a lambda without parameters does what its body does, unless there is no
room for it. -/
theorem call_lambda_eq_force {x : Value} (hx : x.defines = false) (run : Run)
    (hrun : run.chain.All (·.defines = false)) (fuel : Nat) (id : Identity) :
    (∃ after, call (fuel + 1) (.lambda id [] [x]) [] run =
        .error (.failed .stackOverflow) after) ∨
      call (fuel + 1) (.lambda id [] [x]) [] run = force fuel x run := by
  have happly : call (fuel + 1) (.lambda id [] [x]) [] run =
      if run.chain.hasRoom then EvalM.inside ∅ (force fuel x) run
      else .error (.failed .stackOverflow) run :=
    Eval.lambda_apply (call fuel) [] [x] [] run
  by_cases hroom : run.chain.hasRoom = true
  · rw [happly, if_pos hroom]
    have hend := Simulation.simulates_force (Simulation.withoutEmptyScope.callers_call fuel)
      hx { run with chain := run.chain.push ∅ } run
      ⟨.push_empty run.chain, rfl, hrun.push .empty⟩
    unfold EvalM.inside
    unfold force
    generalize Eval.force (call fuel) x { run with chain := run.chain.push ∅ } = inner at hend
    generalize Eval.force (call fuel) x run = outer at hend
    cases hend with
    | @ok v r s _ hafter =>
        obtain ⟨hpadded, hconsole, _⟩ := hafter
        right
        simp only [hpadded.pop_eq, hconsole]
    | @error stop r s hafter =>
        obtain ⟨hpadded, hconsole, _⟩ := hafter
        right
        simp only [hpadded.pop_eq, hconsole]
    | excused hstop =>
        cases hstop
        exact .inl ⟨_, rfl⟩
  · rw [happly, if_neg hroom]
    exact .inl ⟨run, rfl⟩

namespace Interpreter

/-- Where nothing defines a name, calling a lambda without parameters in a scope is the
same as forcing its body there, unless the call runs out of room: it ends with the same
value or error, has written the same, and leaves the same forest. -/
theorem empty_scope_invisible (i : Interpreter) (e : ScopeId) (x : Value)
    (hx : x.defines = false)
    (hscopes : ∀ s ∈ i.forest.path e, ∀ (name : String) (v : Value),
      (i.forest.bindingsOf s)[name]? = some v → v.defines = false)
    (fuel : Nat) (id : Identity)
    (hends : (i.within e (call (fuel + 1) (.lambda id [] [x]) [])).1 ≠
      .error (.failed .stackOverflow)) :
    i.within e (force fuel x) = i.within e (call (fuel + 1) (.lambda id [] [x]) []) := by
  have hchain : (i.forest.chain e).All (·.defines = false) := by
    intro scope hscope
    rw [Forest.scopes_chain] at hscope
    obtain ⟨s, hs, rfl⟩ := List.mem_map.mp hscope
    exact hscopes s hs
  have hcall := call_lambda_eq_force hx ⟨i.forest.chain e, i.console⟩ hchain fuel id
  unfold within at hends ⊢
  rcases hcall with ⟨after, hoverflow⟩ | heq
  · simp [hoverflow] at hends
  · simp only [heq]

/-- In a scope inside the standard one, `f` overwrites a name of that scope, prints it,
and calls the lambda that is passed to it. -/
theorem empty_scope_invisible_nested :
    let f : Function := .lambda 5 ["g"]
      [.function (.thunk 1 (.set (.str "y") (.str "b"))),
        .function (.thunk 3 (.call "print" [.function (.deferred 2 "y")])),
        .function (.thunk 4 (.call "g" []))]
    let scope : Bindings := ((∅ : Bindings).insert "f" (.function f)).insert "y" (.str "a")
    let forest : Forest := ⟨(Forest.empty.addRoot .standard).scopes.push ⟨scope, [0]⟩⟩
    let i : Interpreter := { Interpreter.new .standard with forest }
    let x : Value := .function (.thunk 8
      (.call "f" [.function (.lambda 7 [] [.function (.deferred 6 "y")])]))
    let outcome := i.within 1 (call 7 (.lambda 9 [] [x]) [])
    x.defines = false ∧ i.forest.path 1 = [1, 0] ∧ outcome.1 = .ok (.str "b") ∧
      outcome.2.console.output = "b\n" ∧ i.within 1 (force 6 x) = outcome := by
  intro f scope forest i x outcome
  have hx : x.defines = false := by decide
  have hoverwritten : Bindings.All (·.defines = false) scope :=
    (Bindings.All.empty.insert "f" (by decide)).insert "y" rfl
  have hstandard : Bindings.All (·.defines = false) .standard :=
    Bindings.all_standard rfl rfl rfl fun _ => rfl
  have hscopes : ∀ s ∈ i.forest.path 1, (i.forest.bindingsOf s).All (·.defines = false) := by
    intro s hs
    change s ∈ [1, 0] at hs
    rcases List.mem_cons.mp hs with rfl | hs
    · exact hoverwritten
    · obtain rfl := List.mem_singleton.mp hs
      exact hstandard
  have hvalue : outcome.1 = .ok (.str "b") := rfl
  have hends : outcome.1 ≠ .error (.failed .stackOverflow) := by
    rw [hvalue]
    exact fun h => nomatch h
  exact ⟨hx, rfl, hvalue, rfl, empty_scope_invisible i 1 x hx hscopes 6 9 hends⟩

end Interpreter
end MiniLisp
