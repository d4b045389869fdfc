import MiniLisp.Proofs.Eval.Isolation
import MiniLisp.Proofs.Eval.Program
import MiniLisp.Proofs.Interpreter.Depth
import MiniLisp.Proofs.Scope.Parameters

/-!
# Binding parameters

The body of a lambda starts in a new scope inside that of the call.  All that this scope
binds are the parameters that have an argument; a parameter without one is looked up
further out like any other name.  If the numbers of parameters and arguments differ, this
is told once, and the call goes as if what is left over on either side had not been there.
-/

namespace MiniLisp

theorem Chain.get?_push_of_notMem {bindings : Bindings} {name : String} (h : name ∉ bindings)
    (c : Chain) : (c.push bindings).get? name = c.get? name := by
  unfold Chain.get?
  change List.findSome? _ (bindings :: c.scopes) = _
  rw [List.findSome?_cons, Std.TreeMap.getElem?_eq_none h]

theorem Chain.Alike.refl (c : Chain) : c.Alike c :=
  List.forall₂_same.mpr fun _ _ => .rfl

/-- The console once a wrong number of arguments has been told about. -/
def Console.counted (c : Console) (expected got : Nat) : Console :=
  if expected = got then c else c.tell (.argumentCount expected got)

theorem Console.output_counted (c : Console) (expected got : Nat) :
    (c.counted expected got).output = c.output := by
  unfold counted
  split <;> rfl

/-- The line of a log that tells about a wrong number of arguments. -/
def countWarning (expected got : Nat) : String :=
  "WARN number of arguments passed to lambda does not match its parameters expected=" ++
    toString expected ++ " got=" ++ toString got

theorem Event.line_argumentCount (expected got : Nat) :
    (Event.argumentCount expected got).line = countWarning expected got := by
  have hlevel : (Event.argumentCount expected got).level.name ++ " " ++
      "number of arguments passed to lambda does not match its parameters expected=" =
        "WARN number of arguments passed to lambda does not match its parameters expected=" := by
    change "WARN" ++ " " ++ _ = _
    decide +kernel
  unfold Event.line countWarning Event.message
  dsimp only
  rw [← String.append_assoc, ← String.append_assoc, ← String.append_assoc, hlevel]

theorem Console.log_counted (c : Console) (expected got : Nat) :
    (c.counted expected got).log .warn =
      c.log .warn ++ if expected = got then [] else [countWarning expected got] := by
  unfold counted
  split
  · rw [List.append_nil]
  · simp [log, tell, Event.level, Level.shows, Event.line_argumentCount]

theorem Run.counted_eq (c : Chain) (console : Console) (expected got : Nat) :
    Run.counted ⟨c, console⟩ expected got = ⟨c, console.counted expected got⟩ := by
  unfold Run.counted Console.counted
  split <;> rfl

namespace Interpreter

/-! ## Runs after different messages -/

/-- Two runs have ended in the same way, with the same scopes, and have written the same
since their consoles were `k` and `l`. -/
structure SameSince (k l : Console) (x y : Except Stop α × Interpreter) : Prop where
  outcome : x.1 = y.1
  forest : x.2.forest = y.2.forest
  console : ∃ written, x.2.console = k.append written ∧ y.2.console = l.append written

/-- What was told before a run has no influence on it. -/
theorem sameSince_within {m : EvalM α} (hisolated : m.Isolated) (hmuted : m.EqualMuted m)
    (i : Interpreter) (e : ScopeId) {k l : Console} (houtput : k.output = l.output) :
    SameSince k l ({ i with console := k }.within e m) ({ i with console := l }.within e m) := by
  have hstart : Run.Alike k l ⟨i.forest.chain e, k⟩ ⟨i.forest.chain e, l⟩ :=
    ⟨.refl _, .empty, k.append_empty.symm, l.append_empty.symm⟩
  have hend := hisolated k l _ _ hstart
  have hchain := hmuted ⟨i.forest.chain e, k⟩ ⟨i.forest.chain e, l⟩
    (Run.mute_eq_iff.mpr ⟨rfl, houtput⟩)
  unfold within
  dsimp only
  generalize m ⟨i.forest.chain e, k⟩ = x at hend hchain
  generalize m ⟨i.forest.chain e, l⟩ = y at hend hchain
  cases hend with
  | ok v halike =>
      have hsame := (Run.mute_eq_iff.mp (EStateM.Result.ok.inj hchain).2).1
      exact ⟨rfl, congrArg (i.forest.restore e) hsame, halike.console⟩
  | error stop halike =>
      have hsame := (Run.mute_eq_iff.mp (EStateM.Result.error.inj hchain).2).1
      exact ⟨rfl, congrArg (i.forest.restore e) hsame, halike.console⟩

/-! ## The start of the body -/

/-- A lambda is called in the scope `e`, and its body starts in a new scope. -/
structure BodyStarts (i : Interpreter) (e : ScopeId) (params : List String)
    (args : List Value) (start : Interpreter) : Prop where
  next : start.forest.next = i.forest.next + 1
  parent : start.forest.parent? i.forest.next = some e
  others : ∀ s < i.forest.next, start.forest.bindingsOf s = i.forest.bindingsOf s ∧
    start.forest.parent? s = i.forest.parent? s
  names : ∀ name, name ∈ start.forest.bindingsOf i.forest.next ↔ HasArgument params args name
  values : ∀ name v, (start.forest.bindingsOf i.forest.next)[name]? = some v ↔
    LastArgument params args name v
  free : ∀ name, ¬ HasArgument params args name →
    start.forest.get? i.forest.next name = i.forest.get? e name
  output : start.console.output = i.console.output
  log : start.console.log .warn = i.console.log .warn ++
    if params.length = args.length then [] else [countWarning params.length args.length]

section Call

variable {i : Interpreter} {e : ScopeId} (params : List String) (values args : List Value)

/-- With room for a scope, a call of a lambda counts its arguments and runs its body
inside. -/
theorem within_lambda (hroom : i.forest.depth e < maxDepth) (fuel : Nat) (id : Identity) :
    i.within e (call (fuel + 1) (.lambda id params values) args) =
      { i with console := i.console.counted params.length args.length }.within e
        (EvalM.inside (.ofParams params args) (Eval.body (call fuel) values)) := by
  have hasRoom : (i.forest.chain e).hasRoom = true := by
    rw [Chain.hasRoom_iff, Forest.depth_chain]
    exact hroom
  unfold within
  rw [call, Eval.function, Eval.lambda_apply, if_pos hasRoom, Run.counted_eq]

theorem bodyStarts (hi : i.forest.WellFormed) (he : e < i.forest.next) :
    i.BodyStarts e params args
      { i with
        forest := (i.forest.child e).restore i.forest.next
          ((i.forest.chain e).push (.ofParams params args))
        console := i.console.counted params.length args.length } := by
  have hchild : (i.forest.child e).WellFormed := hi.child he
  have hnext : i.forest.next < (i.forest.child e).next := i.forest.next_lt_next_child e
  have hchain : ((i.forest.child e).restore i.forest.next
      ((i.forest.chain e).push (.ofParams params args))).chain i.forest.next =
        (i.forest.chain e).push (.ofParams params args) := by
    apply hchild.chain_restore hnext
    rw [Chain.depth_push, Forest.depth_chain, Forest.depth_child]
  have hbindings : ((i.forest.child e).restore i.forest.next
      ((i.forest.chain e).push (.ofParams params args))).bindingsOf i.forest.next =
        .ofParams params args :=
    congrArg Chain.inner hchain
  have hdepth : 0 < ((i.forest.chain e).push (.ofParams params args)).depth :=
    Nat.succ_pos _
  constructor
  · rw [Forest.next_restore, Forest.next_child]
  · rw [Forest.parent?, Forest.ancestorsOf_restore, Forest.ancestorsOf_child]
    rfl
  · intro s hs
    constructor
    · rw [Forest.bindingsOf_restore_child i.forest e hdepth hs, Chain.pop_push,
        hi.restore_chain he]
    · rw [Forest.parent?, Forest.ancestorsOf_restore, Forest.child, Forest.ancestorsOf_push,
        if_neg (Nat.ne_of_lt hs)]
      rfl
  · intro name
    rw [hbindings]
    exact Bindings.mem_ofParams
  · intro name v
    rw [hbindings]
    exact Bindings.getElem?_ofParams_eq_some
  · intro name hname
    have hnotMem : name ∉ Bindings.ofParams params args :=
      fun hmem => hname (Bindings.mem_ofParams.mp hmem)
    rw [Forest.get?, hchain, Chain.get?_push_of_notMem hnotMem]
    rfl
  · exact i.console.output_counted _ _
  · exact i.console.log_counted _ _

/-- A call with arguments or parameters left over differs from the call without them in
one message only. -/
theorem sameSince_take (hroom : i.forest.depth e < maxDepth) (fuel : Nat) (id : Identity) :
    SameSince (i.console.counted params.length args.length) i.console
      (i.within e (call (fuel + 1) (.lambda id params values) args))
      (i.within e (call (fuel + 1) (.lambda id (params.take args.length) values)
        (args.take params.length))) := by
  have hcount : i.console.counted (params.take args.length).length
      (args.take params.length).length = i.console := by
    unfold Console.counted
    rw [List.length_take, List.length_take, Nat.min_comm, if_pos rfl]
  rw [within_lambda params values args hroom, within_lambda _ values _ hroom,
    Bindings.ofParams_take, hcount]
  apply sameSince_within
  · exact EvalM.isolated_closed.inside _
      (EvalM.isolated_closed.body (EvalM.isolated_closed.call fuel) values)
  · exact EvalM.equalMuted_closed.inside _
      (EvalM.equalMuted_closed.body (EvalM.equalMuted_closed.call fuel) values)
  · exact i.console.output_counted _ _

end Call

/-- The body of a lambda starts in a new scope inside that of the caller, which binds the
parameters that have an argument, each to its last one.  All other names are those of the
caller.  A wrong number of arguments is told about once, and makes no other difference to
a call with those parameters and arguments that belong together. -/
theorem parameters_bound (i : Interpreter) (hi : i.forest.Reachable) (e : ScopeId)
    (he : e < i.forest.next) (hroom : i.forest.depth e < maxDepth) (id : Identity)
    (params : List String) (values args : List Value) :
    (∃ start, i.BodyStarts e params args start ∧ ∀ fuel,
        SameEnd i.forest.next (i.within e (call (fuel + 1) (.lambda id params values) args))
          (start.within i.forest.next (Eval.body (call fuel) values))) ∧
      ∀ fuel, SameSince
        (if params.length = args.length then i.console
          else i.console.tell (.argumentCount params.length args.length)) i.console
        (i.within e (call (fuel + 1) (.lambda id params values) args))
        (i.within e (call (fuel + 1) (.lambda id (params.take args.length) values)
          (args.take params.length))) := by
  refine ⟨⟨_, bodyStarts params args hi.wellFormed he, fun fuel => ?_⟩, fun fuel => ?_⟩
  · rw [within_lambda params values args hroom]
    apply sameEnd_inside
      (i := { i with console := i.console.counted params.length args.length }) hi he
    exact EvalM.framed_closed.body (call_framed fuel) values
  · exact sameSince_take params values args hroom fuel id

/-- One name stands twice among the parameters, and the last parameter has no argument: the
body finds a value for it in the scope of the caller. -/
theorem parameters_bound_repeated :
    let root := (∅ : Bindings).insert "z" (.int 9)
    let i : Interpreter := { new .standard with forest := Forest.empty.addRoot root }
    let params := ["x", "y", "x", "z"]
    let args : List Value := [.int 1, .int 2, .int 3]
    let body : List Value := [.function (.thunk 3 (.list
      [.function (.deferred 0 "x"), .function (.deferred 1 "y"), .function (.deferred 2 "z")]))]
    let called := i.within 0 (call 4 (.lambda 4 params body) args)
    i.forest.Reachable ∧
      (∃ start, i.BodyStarts 0 params args start ∧
        (start.forest.bindingsOf 1)["x"]? = some (.int 3) ∧
        start.forest.get? 1 "z" = some (.int 9) ∧
        start.console.log .warn = ["WARN number of arguments passed to lambda does not match " ++
          "its parameters expected=4 got=3"]) ∧
      called.1 = .ok (.list [.int 3, .int 2, .int 9]) ∧
      called.1 = (i.within 0 (call 4 (.lambda 4 ["x", "y", "x"] body) args)).1 := by
  intro root i params args body called
  have hi : i.forest.Reachable := .addRoot _ .empty
  have hroom : i.forest.depth 0 < maxDepth := by decide
  obtain ⟨⟨start, hstart, -⟩, hsame⟩ :=
    parameters_bound i hi 0 (by decide) hroom 4 params body args
  have hx : LastArgument params args "x" (.int 3) := by
    refine ⟨2, by decide, rfl, rfl, ?_⟩
    decide
  have hz : ¬ HasArgument params args "z" := by
    unfold HasArgument
    decide
  have hfree : start.forest.get? 1 "z" = some (.int 9) := hstart.free "z" hz
  refine ⟨hi, ⟨start, hstart, (hstart.values "x" _).mpr hx, hfree, ?_⟩, rfl, (hsame 3).outcome⟩
  rw [hstart.log]
  decide +kernel

end Interpreter
end MiniLisp
