import MiniLisp.Interpreter
import MiniLisp.Proofs.Eval.Monitor
import MiniLisp.Proofs.Scope.Depth

/-!
# How deep calls are nested

A call of a lambda takes place in a scope of its own, one deeper than that of the
caller.  At the greatest depth there is no room for it, and the call fails before it has
done anything.  Everywhere else the body runs as it would in a scope that was added to
the forest for it.  No call on the way is ever deeper than the limit.
-/

namespace MiniLisp

theorem Chain.depth_pop (c : Chain) : c.pop.depth = c.depth - 1 := by
  unfold Chain.pop Chain.depth
  split
  next houter => rw [houter]; rfl
  next scope rest houter => rw [houter]; rfl

theorem Chain.hasRoom_iff {c : Chain} : c.hasRoom = true ↔ c.depth < maxDepth :=
  decide_eq_true_iff

/-- Calls begin and end no deeper than the limit, and no higher than where the run has
begun. -/
def Monitor.nesting (start : Nat) : Monitor where
  begins _ _ c := start ≤ c.depth && c.depth ≤ maxDepth
  ends _ _ c := start ≤ c.depth && c.depth ≤ maxDepth

/-- The depth is greater than at the start by the number of scopes that have been
entered. -/
def Invariant.nesting (start : Nat) : Invariant .free where
  holds n c := c.depth = start + n ∧ c.depth ≤ maxDepth
  bound _ _ := trivial
  define hc _ hdefine := by
    rw [(Chain.Extends.define hdefine).depth_eq]
    exact hc
  set hc _ hset := by
    rw [(Chain.SameNames.set hset).extends.depth_eq]
    exact hc
  push := by
    intro n c bindings hc hroom _
    have hlt := Chain.hasRoom_iff.mp hroom
    rw [Chain.depth_push]
    omega
  pop := by
    intro n c hc
    rw [Chain.depth_pop]
    omega

theorem Invariant.nesting_satisfies (start : Nat) :
    (Invariant.nesting start).Satisfies (.nesting start) := by
  have hfine : ∀ {n : Nat} {c : Chain}, (Invariant.nesting start).holds n c →
      (decide (start ≤ c.depth) && decide (c.depth ≤ maxDepth)) = true := by
    intro n c hc
    have hle : start ≤ c.depth := by
      rw [hc.1]
      exact Nat.le_add_right start n
    simp [hle, hc.2]
  exact ⟨fun hc _ _ => hfine hc, fun hc _ _ _ => hfine hc⟩

/-! ## Entering the scope of a lambda -/

/-- If all calls succeed and do nothing, so does a body. -/
theorem Eval.body_idle (values : List Value) (run : Run) :
    ∃ v, (Eval.body (fun _ _ => pure .null) values : EvalM Value) run = .ok v run := by
  induction values with
  | nil => exact ⟨_, rfl⟩
  | cons v values ih =>
      cases values with
      | nil => cases v <;> exact ⟨_, rfl⟩
      | cons w ws => cases v <;> exact ih

/-- How a call of a lambda begins in some state of a run.  Without room for a scope it
fails, and leaves the state as it is whatever the functions in its body would do.
Otherwise it counts its arguments and runs its body in a new scope. -/
structure Run.Enters (run : Run) (params : List String) (values args : List Value) : Prop where
  full : (∀ call : Caller, Eval.lambda call params values args run =
    .error (.failed .stackOverflow) run) ↔ run.chain.depth = maxDepth
  room : run.chain.depth < maxDepth → ∀ call : Caller, Eval.lambda call params values args run =
    EvalM.inside (.ofParams params args) (do
      Eval.checkCount params.length args.length
      Eval.body call values) run

section Enters

variable {run : Run} (params : List String) (values args : List Value)

theorem Eval.lambda_of_full (hfull : run.chain.depth = maxDepth) (call : Caller) :
    Eval.lambda call params values args run = .error (.failed .stackOverflow) run := by
  have hroom : ¬ run.chain.hasRoom = true := by
    rw [Chain.hasRoom_iff, hfull]
    exact Nat.lt_irrefl maxDepth
  rw [Eval.lambda_apply, if_neg hroom]

theorem Eval.lambda_of_room (hroom : run.chain.depth < maxDepth) (call : Caller) :
    Eval.lambda call params values args run =
      EvalM.inside (.ofParams params args) (do
        Eval.checkCount params.length args.length
        Eval.body call values) run := by
  have hcounted : ∀ chain, Run.counted { run with chain } params.length args.length =
      { run.counted params.length args.length with chain } := by
    intro chain
    unfold Run.counted
    split <;> rfl
  have hbody : ∀ chain, (do
        Eval.checkCount params.length args.length
        Eval.body call values) { run with chain } =
      Eval.body call values { run.counted params.length args.length with chain } := by
    intro chain
    change EStateM.bind (Eval.checkCount params.length args.length) _ _ = _
    unfold EStateM.bind
    rw [Eval.checkCount_apply, hcounted]
  rw [Eval.lambda_apply, if_pos (Chain.hasRoom_iff.mpr hroom)]
  unfold EvalM.inside
  rw [hbody, Run.chain_counted]

theorem Eval.exists_lambda_ok (hroom : run.chain.depth < maxDepth) :
    ∃ (call : Caller) (v : Value) (after : Run),
      Eval.lambda call params values args run = .ok v after := by
  refine ⟨fun _ _ => pure .null, ?_⟩
  rw [Eval.lambda_apply, if_pos (Chain.hasRoom_iff.mpr hroom)]
  unfold EvalM.inside
  obtain ⟨v, hbody⟩ := Eval.body_idle values _
  rw [hbody]
  exact ⟨v, _, rfl⟩

theorem Run.enters (hdepth : run.chain.depth ≤ maxDepth) : run.Enters params values args where
  full := by
    constructor
    · intro hfails
      by_contra hne
      obtain ⟨call, v, after, hok⟩ :=
        Eval.exists_lambda_ok params values args (Nat.lt_of_le_of_ne hdepth hne)
      cases (hfails call).symm.trans hok
    · exact Eval.lambda_of_full params values args
  room := Eval.lambda_of_room params values args

end Enters

namespace Interpreter

theorem within_congr {i : Interpreter} {e : ScopeId} {m k : EvalM α}
    (h : m ⟨i.forest.chain e, i.console⟩ = k ⟨i.forest.chain e, i.console⟩) :
    i.within e m = i.within e k := by
  unfold within
  rw [h]

/-- Two runs have ended in the same way and have written the same.  The scopes below a
number have the same bindings. -/
structure SameEnd (old : ScopeId) (x y : Except Stop Value × Interpreter) : Prop where
  outcome : x.1 = y.1
  console : x.2.console = y.2.console
  bindings : ∀ s < old, x.2.forest.bindingsOf s = y.2.forest.bindingsOf s

/-- A call of a lambda in a scope is a run of its body in a new scope inside that one. -/
def RunsInside (i : Interpreter) (e : ScopeId) (id : Identity) (params : List String)
    (values args : List Value) : Prop :=
  ∃ g, i.forest.enter e params args = .ok g ∧ g.Reachable ∧ g.next = i.forest.next + 1 ∧
    g.parent? i.forest.next = some e ∧ g.depth i.forest.next = i.forest.depth e + 1 ∧
    ∀ fuel, SameEnd i.forest.next (i.within e (call (fuel + 1) (.lambda id params values) args))
      ({ i with forest := g }.within i.forest.next do
        Eval.checkCount params.length args.length
        Eval.body (call fuel) values)

section Lambda

variable {i : Interpreter} (hi : i.forest.Reachable) {e : ScopeId} (he : e < i.forest.next)
include hi he

theorem overflow_iff (id : Identity) (params : List String) (values args : List Value) :
    (∀ call : Caller, i.within e (Eval.function call (.lambda id params values) args) =
        (.error (.failed .stackOverflow), i)) ↔ i.forest.depth e = maxDepth := by
  constructor
  · intro hfails
    by_contra hne
    -- With room left, a caller whose calls do nothing lets the lambda succeed.
    have hroom : (i.forest.chain e).depth < maxDepth := by
      rw [Forest.depth_chain]
      exact Nat.lt_of_le_of_ne (hi.depth_le e) hne
    obtain ⟨call, v, after, hok⟩ : ∃ (call : Caller) (v : Value) (after : Run),
        Eval.lambda call params values args ⟨i.forest.chain e, i.console⟩ = .ok v after :=
      Eval.exists_lambda_ok params values args hroom
    have hfail := hfails call
    rw [Eval.function, within, hok] at hfail
    cases congrArg Prod.fst hfail
  · intro hdepth call
    have hfull : (i.forest.chain e).depth = maxDepth := by
      rw [Forest.depth_chain, hdepth]
    rw [Eval.function, within, Eval.lambda_of_full params values args hfull]
    simp only [hi.wellFormed.restore_chain he]

/-- A run in a scope of its own is a run in a scope that has been added for it. -/
theorem sameEnd_inside {m : EvalM Value} (hm : m.Framed) (bindings : Bindings) :
    let forest := (i.forest.child e).restore i.forest.next ((i.forest.chain e).push bindings)
    SameEnd i.forest.next (i.within e (EvalM.inside bindings m))
      ({ i with forest }.within i.forest.next m) := by
  intro forest
  have hchild : (i.forest.child e).WellFormed := hi.wellFormed.child he
  have hnext : i.forest.next < (i.forest.child e).next := i.forest.next_lt_next_child e
  have hdepth := Forest.depth_child i.forest e
  have hchain : forest.chain i.forest.next = (i.forest.chain e).push bindings := by
    apply hchild.chain_restore hnext
    rw [Chain.depth_push, Forest.depth_chain, hdepth]
  -- The run ends at the depth it began at, so that its chain fits the path of the scope.
  have hend := (hm ⟨(i.forest.chain e).push bindings, i.console⟩).depth_eq
  rw [Chain.depth_push, Forest.depth_chain] at hend
  have hscopes : ∀ c : Chain, c.depth = i.forest.depth e + 1 → ∀ s < i.forest.next,
      (i.forest.restore e c.pop).bindingsOf s = (forest.restore i.forest.next c).bindingsOf s := by
    intro c hc s hs
    rw [hchild.restore_restore hnext (hc.trans hdepth.symm)]
    exact (Forest.bindingsOf_restore_child i.forest e (by omega) hs).symm
  unfold within EvalM.inside
  unfold EvalM.after at hend
  rw [hchain]
  dsimp only
  generalize m ⟨(i.forest.chain e).push bindings, i.console⟩ = x at hend
  cases x with
  | ok v last => exact ⟨rfl, rfl, hscopes last.chain hend⟩
  | error stop last => exact ⟨rfl, rfl, hscopes last.chain hend⟩

theorem runsInside (hroom : i.forest.depth e < maxDepth) (id : Identity) (params : List String)
    (values args : List Value) : i.RunsInside e id params values args := by
  have henter := hi.wellFormed.enter he hroom params args
  refine ⟨_, henter, hi.enter he henter, ?_, ?_, ?_, ?_⟩
  · rw [Forest.next_restore, Forest.next_child]
  · rw [Forest.parent?, Forest.ancestorsOf_restore, Forest.ancestorsOf_child]
    rfl
  · rw [Forest.depth_restore, Forest.depth_child]
  · intro fuel
    have hroom' : (i.forest.chain e).depth < maxDepth := by
      rw [Forest.depth_chain]
      exact hroom
    rw [call, Eval.function,
      within_congr (Eval.lambda_of_room params values args hroom' (call fuel))]
    apply sameEnd_inside hi he
    apply EvalM.framed_closed.bind (EvalM.framed_closed.checkCount _ _)
    exact fun _ => EvalM.framed_closed.body (call_framed fuel) values

end Lambda

/-- In every forest that has come about, the way outwards from a scope ends in a root and
meets no scope twice; its length is the depth of the scope, which is limited.  No call on
the way of an evaluation raises the alarm by passing the limit.  Wherever a lambda is
called, it finds no room for its scope exactly at the limit.  In a scope of the forest it
then leaves the interpreter as it is, and everywhere else its body runs in a new scope
that is one deeper. -/
theorem scope_depth_limited (i : Interpreter) (hi : i.forest.Reachable) (e : ScopeId)
    (he : e < i.forest.next) :
    (∃ ancestors, i.forest.Outward e ancestors ∧ (e :: ancestors).Nodup ∧
        i.forest.depth e = ancestors.length ∧ i.forest.depth e ≤ maxDepth) ∧
      (∀ fuel f args alarm,
        i.within e ((Monitor.nesting (i.forest.depth e)).call alarm fuel f args) =
          i.within e (call fuel f args)) ∧
      (∀ run : Run, run.chain.depth ≤ maxDepth →
        ∀ params values args, run.Enters params values args) ∧
      ∀ id params values args,
        ((∀ call : Caller, i.within e (Eval.function call (.lambda id params values) args) =
            (.error (.failed .stackOverflow), i)) ↔ i.forest.depth e = maxDepth) ∧
          (i.forest.depth e < maxDepth → i.RunsInside e id params values args) := by
  have hf := hi.wellFormed
  refine ⟨⟨_, hf.outward e, hf.nodup_path e, rfl, hi.depth_le e⟩, ?_, ?_, ?_⟩
  · intro fuel f args alarm
    have hstart : (Invariant.nesting (i.forest.depth e)).holds 0 (i.forest.chain e) := by
      refine ⟨Forest.depth_chain i.forest e, ?_⟩
      rw [Forest.depth_chain]
      exact hi.depth_le e
    have hcallers := (Invariant.nesting_satisfies (i.forest.depth e)).callers alarm fuel
    have hcall := hcallers 0 f args trivial fun _ _ => trivial
    exact within_congr (Invariant.eq_of_simulates hcall hstart).1
  · intro run hdepth params values args
    exact Run.enters params values args hdepth
  · intro id params values args
    exact ⟨overflow_iff hi he id params values args,
      fun hroom => runsInside hi he hroom id params values args⟩

/-- With as many nested scopes as there may be, a lambda fails in the innermost one, where
it does not even tell that its argument is missing.  In the scope around that one its
body still runs. -/
theorem scope_depth_limited_innermost :
    let f : Forest := .nested maxDepth
    let i : Interpreter := { new .standard with forest := f }
    let body : List Value := [.function (.deferred 0 "x")]
    f.Reachable ∧ f.depth maxDepth = maxDepth ∧ f.depth (maxDepth - 1) = maxDepth - 1 ∧
      (∀ call : Caller, i.within maxDepth (Eval.function call (.lambda 1 ["x"] body) []) =
        (.error (.failed .stackOverflow), i)) ∧
      i.RunsInside (maxDepth - 1) 1 ["x"] body [] ∧
      EvalError.stackOverflow.message = "maximum call depth of 10000 exceeded" := by
  intro f i body
  have hi : i.forest.Reachable := Forest.reachable_nested (Nat.le_refl maxDepth)
  have hnext : i.forest.next = maxDepth + 1 := Forest.next_nested maxDepth
  have hinnermost : i.forest.depth maxDepth = maxDepth :=
    Forest.depth_nested (Nat.le_refl maxDepth)
  have haround : i.forest.depth (maxDepth - 1) = maxDepth - 1 :=
    Forest.depth_nested (Nat.sub_le maxDepth 1)
  have hlimit := (scope_depth_limited i hi maxDepth (hnext ▸ by decide)).2.2.2 1 ["x"] body []
  have habove := (scope_depth_limited i hi (maxDepth - 1) (hnext ▸ by decide)).2.2.2 1 ["x"] body []
  refine ⟨hi, hinnermost, haround, hlimit.1.mpr hinnermost, habove.2 ?_, by decide⟩
  rw [haround]
  decide

end Interpreter
end MiniLisp
