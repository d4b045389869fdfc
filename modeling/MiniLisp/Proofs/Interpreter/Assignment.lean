import MiniLisp.Proofs.Interpreter.Depth
import MiniLisp.Proofs.Interpreter.Sequence
import MiniLisp.Proofs.Scope.Binder

/-!
# Assignments

An assignment looks for its name first and forces its value afterwards, so that the write
comes after an arbitrary evaluation.  That evaluation may define the name once more, nearer
by, but it unbinds nothing.  The write therefore finds a scope, and it is the only thing
that the assignment adds to what the evaluation has done.
-/

namespace MiniLisp
namespace Eval

section Set

variable {call : Caller} {name : String} {x : Value} {run : Run}

theorem set_of_unbound (hname : run.chain.get? name = none) :
    Eval.set call (.str name) x run = .error (.failed (.notDefined name)) run := by
  simp only [Eval.set, targetName, Scoped.ofExcept, pure_bind, EvalM.chain_bind, hname]
  rfl

theorem set_of_bound {old : Value} (hname : run.chain.get? name = some old) :
    Eval.set call (.str name) x run =
      (Eval.force call x >>= fun v => EvalM.update (·.set name v) >>= fun _ => pure v) run := by
  simp only [Eval.set, targetName, Scoped.ofExcept, pure_bind, EvalM.chain_bind, hname]
  rfl

end Set
end Eval

namespace Forest

theorem exists_binder? {f : Forest} {e s : ScopeId} {name : String} (hs : s ∈ f.path e)
    (hname : name ∈ f.bindingsOf s) : ∃ p, f.binder? e name = some p := by
  have hsome : (f.binder? e name).isSome := by
    rw [binder?, List.find?_isSome]
    exact ⟨s, hs, Std.TreeMap.mem_iff_contains.mp hname⟩
  exact Option.isSome_iff_exists.mp hsome

/-- A name that is bound on a path stays bound there. -/
theorem WellFormed.exists_binder?_restore {f : Forest} (hf : f.WellFormed) {e : ScopeId}
    (he : e < f.next) {c : Chain} (hc : (f.chain e).Extends c) {name : String}
    (hname : f.get? e name ≠ none) : ∃ s, (f.restore e c).binder? e name = some s := by
  obtain ⟨p, hp⟩ := Option.ne_none_iff_exists'.mp (mt get?_eq_none_iff.mpr hname)
  obtain ⟨hpath, hbound⟩ := mem_of_binder? hp
  obtain ⟨hinner, houter⟩ := hf.extends_restore he hc
  apply exists_binder? (s := p)
  · rwa [path_restore]
  · rcases List.mem_cons.mp hpath with rfl | hancestor
    · exact hinner name hbound
    · exact (houter p hancestor name).mp hbound

end Forest

namespace Interpreter

section Assignment

variable {i : Interpreter} (hi : i.forest.WellFormed) {e : ScopeId} (he : e < i.forest.next)
include hi he

theorem within_set_of_unbound {name : String} (hname : i.forest.get? e name = none)
    (call : Caller) (x : Value) :
    i.within e (Eval.set call (.str name) x) = (.error (.failed (.notDefined name)), i) :=
  within_of_error hi he (Eval.set_of_unbound hname)

theorem within_write {name : String} {s : ScopeId} (hs : i.forest.binder? e name = some s)
    (v : Value) :
    i.within e (EvalM.update (·.set name v) >>= fun _ => pure v) =
      (.ok v, { i with forest := i.forest.put s name v }) := by
  have hput := hi.restore_chain_put he (Forest.mem_of_binder? hs).1 name v
  have hupdate : EvalM.update (·.set name v) ⟨i.forest.chain e, i.console⟩ =
      .ok () ⟨(i.forest.put s name v).chain e, i.console⟩ := by
    simp only [EvalM.update, hi.chain_set he hs]
  unfold within
  rw [EvalM.bind_ok hupdate]
  dsimp only [pure, EStateM.pure]
  simp only [hput]

/-- The write of an assignment comes on top of what the evaluation of its value has left. -/
theorem within_set_of_bound {name : String} (hname : i.forest.get? e name ≠ none)
    {call : Caller} {x : Value} (hx : (Eval.force call x).Framed) :
    let forced := i.within e (Eval.force call x)
    let assigned := i.within e (Eval.set call (.str name) x)
    (∀ stop, forced.1 = .error stop → assigned = forced) ∧
      ∀ v, forced.1 = .ok v → ∃ s, forced.2.forest.binder? e name = some s ∧
        assigned = (.ok v, { forced.2 with forest := forced.2.forest.put s name v }) ∧
        assigned.2.forest.get? e name = some v := by
  intro forced assigned
  obtain ⟨old, hold⟩ := Option.ne_none_iff_exists'.mp hname
  have hassigned : assigned = _ := within_congr (Eval.set_of_bound hold)
  have hwrite : ∀ v, (EvalM.update (·.set name v) >>= fun _ => (pure v : EvalM Value)).Framed :=
    fun v => EvalM.framed_closed.bind (EvalM.framed_closed.set name v)
      fun _ => EvalM.framed_closed.pure v
  constructor
  · intro stop hstop
    have hforced : i.within e (Eval.force call x) = (.error stop, forced.2) :=
      Prod.ext hstop rfl
    exact (hassigned.trans (within_bind_of_error hforced _)).trans hforced.symm
  · intro v hv
    have hforced : i.within e (Eval.force call x) = (.ok v, forced.2) := Prod.ext hv rfl
    have hleft : forced.2.forest.WellFormed := wellFormed_within hi e _
    have hscope : e < forced.2.forest.next := by
      simpa [forced] using he
    obtain ⟨s, hs⟩ : ∃ s, forced.2.forest.binder? e name = some s := by
      rw [forest_within]
      exact hi.exists_binder?_restore he (hx ⟨i.forest.chain e, i.console⟩) hname
    have hwritten : assigned =
        (.ok v, { forced.2 with forest := forced.2.forest.put s name v }) :=
      calc assigned
        _ = forced.2.within e (EvalM.update (·.set name v) >>= fun _ => pure v) :=
          hassigned.trans (within_bind_of_ok hi he hx (hwrite v) hforced)
        _ = _ := within_write hleft hscope hs v
    refine ⟨s, hs, hwritten, ?_⟩
    rw [hwritten]
    exact Chain.get?_of_set (hleft.chain_set hscope hs v)

end Assignment

/-- An assignment of a name that has no value fails at once.  Of any other name, it ends as
the evaluation of its value does: with the same failure and nothing else done, or with the
same value, to which the name is then bound in the nearest scope that binds it by now. -/
theorem assignment (i : Interpreter) (hi : i.forest.Reachable) (e : ScopeId)
    (he : e < i.forest.next) (name : String) (x : Value) (id : Identity) (args : List Value) :
    (i.forest.get? e name = none → ∀ call : Caller,
        i.within e (Eval.function call (.thunk id (.set (.str name) x)) args) =
          (.error (.failed (.notDefined name)), i)) ∧
      ∀ old, i.forest.get? e name = some old → ∀ fuel,
        let forced := i.within e (force fuel x)
        let assigned := i.within e (call (fuel + 1) (.thunk id (.set (.str name) x)) args)
        (∀ stop, forced.1 = .error stop → assigned = forced) ∧
          ∀ v, forced.1 = .ok v → ∃ s, forced.2.forest.binder? e name = some s ∧
            assigned = (.ok v, { forced.2 with forest := forced.2.forest.put s name v }) ∧
            assigned.2.forest.get? e name = some v := by
  have hwell := hi.wellFormed
  constructor
  · intro hname call
    exact within_set_of_unbound hwell he hname call x
  · intro old hold fuel forced assigned
    have hname : i.forest.get? e name ≠ none := by
      simp [hold]
    have hx : (Eval.force (call fuel) x).Framed :=
      EvalM.framed_closed.force (call_framed fuel) x
    exact within_set_of_bound hwell he hname hx

/-- The code that the value comes from hides the name on the way: it is the new binding
that is written.  For a name without a value that code does not run. -/
theorem assignment_of_hidden :
    let root := Forest.empty.addRoot ((∅ : Bindings).insert "n" (.int 1))
    let i : Interpreter := { Interpreter.new .standard with forest := root.child 0 }
    let x : Value := .function (.thunk 1
      (.begin [.function (.thunk 0 (.define (.str "n") (.int 5))), .int 7]))
    let forced := i.within 1 (force 2 x)
    let assigned := i.within 1 (call 3 (.thunk 2 (.set (.str "n") x)) [])
    i.forest.Reachable ∧ i.forest.binder? 1 "n" = some 0 ∧ forced.1 = .ok (.int 7) ∧
      assigned = (.ok (.int 7),
        { forced.2 with forest := forced.2.forest.put 1 "n" (.int 7) }) ∧
      assigned.2.forest.get? 1 "n" = some (.int 7) ∧
      i.within 1 (call 3 (.thunk 2 (.set (.str "m") x)) []) =
        (.error (.failed (.notDefined "m")), i) := by
  intro root i x forced assigned
  have hi : i.forest.Reachable := .addChild (.addRoot _ .empty) (e := 0) (by decide) rfl
  obtain ⟨_, hbound⟩ := assignment i hi 1 (by decide) "n" x 2 []
  obtain ⟨hunbound, _⟩ := assignment i hi 1 (by decide) "m" x 2 []
  obtain ⟨_, hok⟩ := hbound (.int 1) rfl 2
  obtain ⟨s, hs, hassigned, hget⟩ := hok (.int 7) rfl
  have hnear : forced.2.forest.binder? 1 "n" = some 1 := by decide +kernel
  cases hnear.symm.trans hs
  exact ⟨hi, by decide +kernel, rfl, hassigned, hget, hunbound rfl (call 2)⟩

end Interpreter
end MiniLisp
