import MiniLisp.Proofs.Interpreter.InPlace

/-!
# The footprint of a call in the forest

A call in a scope leaves alone every scope outside the path of that scope.  On the
path it may change values, but not which names the enclosing scopes bind; new names
appear in the scope of the call only, and not even there if a lambda is called.  This is
so whether the call works on the chain of its scope or in the forest itself.
-/

namespace MiniLisp
namespace Forest

theorem WellFormed.sameNames_restore {f : Forest} (hf : f.WellFormed) {e : ScopeId}
    (he : e < f.next) {c : Chain} (hc : (f.chain e).SameNames c) :
    ∀ s ∈ f.path e, (f.bindingsOf s).SameNames ((f.restore e c).bindingsOf s) := by
  have hdepth : c.depth = f.depth e := by
    rw [hc.extends.depth_eq, depth_chain]
  unfold Chain.SameNames at hc
  rw [← hf.scopes_chain_restore he hdepth, scopes_chain, scopes_chain, path_restore,
    List.forall₂_map_left_iff, List.forall₂_map_right_iff, List.forall₂_same] at hc
  exact hc

theorem WellFormed.extends_restore {f : Forest} (hf : f.WellFormed) {e : ScopeId}
    (he : e < f.next) {c : Chain} (hc : (f.chain e).Extends c) :
    (∀ name ∈ f.bindingsOf e, name ∈ (f.restore e c).bindingsOf e) ∧
      ∀ s ∈ f.ancestorsOf e, (f.bindingsOf s).SameNames ((f.restore e c).bindingsOf s) := by
  have hdepth : c.depth = f.depth e := by
    rw [hc.depth_eq, depth_chain]
  have hscopes := hf.scopes_chain_restore he hdepth
  rw [scopes_chain, path_restore] at hscopes
  obtain ⟨hinner, houter⟩ := List.cons.inj hscopes
  have hancestors := hc.outer
  rw [← houter] at hancestors
  change List.Forall₂ _ ((f.ancestorsOf e).map f.bindingsOf) _ at hancestors
  rw [List.forall₂_map_left_iff, List.forall₂_map_right_iff, List.forall₂_same] at hancestors
  constructor
  · intro name hname
    rw [hinner]
    exact hc.inner name hname
  · exact hancestors

end Forest

namespace Interpreter

/-- Whatever function is called in a scope `e`, and however the call ends: scopes
that are neither `e` nor around it are untouched; the scopes around `e` bind the
names they bound, at their place in the forest; `e` stays at its place and keeps
its names; and a lambda leaves no new name in `e`.  Made in the forest itself, where
lambdas add scopes, the call does not touch those scopes either, and leaves the same
in every scope that was there before. -/
theorem footprint_call (i : Interpreter) (hreachable : i.forest.Reachable)
    (e : ScopeId) (he : e < i.forest.next) (fuel : Nat) (f : Function) (args : List Value) :
    let result := (i.within e (call fuel f args)).2.forest
    let here := (i.inPlace e (ForestM.call fuel f args)).2.forest
    (∀ s < i.forest.next, s ∉ i.forest.path e →
        result.scopes[s]? = i.forest.scopes[s]?) ∧
      (∀ s ∈ i.forest.ancestorsOf e,
        (i.forest.bindingsOf s).SameNames (result.bindingsOf s) ∧
          result.parent? s = i.forest.parent? s ∧
          result.depth s = i.forest.depth s) ∧
      (result.parent? e = i.forest.parent? e ∧
        result.depth e = i.forest.depth e ∧
        ∀ name ∈ i.forest.bindingsOf e, name ∈ result.bindingsOf e) ∧
      ((∃ id params body, f = .lambda id params body) →
        (i.forest.bindingsOf e).SameNames (result.bindingsOf e)) ∧
      (∀ s < i.forest.next, s ∉ i.forest.path e →
        here.scopes[s]? = i.forest.scopes[s]?) ∧
      ∀ s < i.forest.next, here.scopes[s]? = result.scopes[s]? := by
  intro result here
  have hf : i.forest.WellFormed := hreachable.wellFormed
  have hresult : result = _ := i.forest_within e (call fuel f args)
  have hplace : ∀ s, result.ancestorsOf s = i.forest.ancestorsOf s := by
    intro s
    rw [hresult, Forest.ancestorsOf_restore]
  have hparent : ∀ s, result.parent? s = i.forest.parent? s := by
    intro s
    unfold Forest.parent?
    rw [hplace]
  have hdepth : ∀ s, result.depth s = i.forest.depth s := by
    intro s
    unfold Forest.depth
    rw [hplace]
  obtain ⟨hinner, houter⟩ :=
    hf.extends_restore he (call_framed fuel f args ⟨i.forest.chain e, i.console⟩)
  rw [← hresult] at hinner houter
  have hplaced := i.endsInPlace hf he (ForestM.call_enacts fuel f args)
  refine ⟨?_, ?_, ⟨hparent e, hdepth e, hinner⟩, ?_, hplaced.grown.others, hplaced.scopes⟩
  · intro s _ hs
    rw [hresult]
    exact Forest.getElem?_restore_of_notMem hs _
  · intro s hs
    exact ⟨houter s hs, hparent s, hdepth s⟩
  · rintro ⟨id, params, body, rfl⟩
    rw [hresult]
    exact hf.sameNames_restore he
      (call_lambda_sameNames fuel id params body args ⟨i.forest.chain e, i.console⟩)
      e List.mem_cons_self

/-- A lambda that defines a name and then fails is called in a scope inside the
standard one; neither scope has a new name, and a third scope is as it was.  In the
forest itself the scope of the lambda is left behind. -/
theorem footprint_failing_lambda :
    let roots := (Forest.empty.addRoot .standard).addRoot ∅
    let forest : Forest := ⟨roots.scopes.push ⟨∅, roots.path 0⟩⟩
    let i : Interpreter := { Interpreter.new .standard with forest }
    let f : Function := .lambda 3 ["x"]
      [.function (.thunk 1 (.define (.str "y") (.int 1))), .function (.deferred 2 "z")]
    let outcome := i.within 2 (call 4 f [.int 7])
    let result := outcome.2.forest
    let here := (i.inPlace 2 (ForestM.call 4 f [.int 7])).2.forest
    outcome.1 = .error (.failed (.notBound "z")) ∧ i.forest.Reachable ∧
      2 < i.forest.next ∧ 0 ∈ i.forest.ancestorsOf 2 ∧ 1 ∉ i.forest.path 2 ∧
      (i.forest.bindingsOf 2).SameNames (result.bindingsOf 2) ∧
      (i.forest.bindingsOf 0).SameNames (result.bindingsOf 0) ∧
      result.scopes[1]? = i.forest.scopes[1]? ∧
      here.next = 4 ∧ here.scopes[1]? = i.forest.scopes[1]? := by
  intro roots forest i f outcome result here
  have hroots : roots.Reachable := .addRoot ∅ (.addRoot .standard .empty)
  have hreachable : i.forest.Reachable := .addChild hroots (e := 0) (by decide) rfl
  have hscope : 2 < i.forest.next := by decide
  have hinside : 0 ∈ i.forest.ancestorsOf 2 := by decide
  have hapart : 1 ∉ i.forest.path 2 := by decide
  obtain ⟨hothers, houter, _, hlambda, hhere, _⟩ :=
    footprint_call i hreachable 2 hscope 4 f [.int 7]
  exact ⟨rfl, hreachable, hscope, hinside, hapart, hlambda ⟨_, _, _, rfl⟩,
    (houter 0 hinside).1, hothers 1 (by decide) hapart, by decide +kernel,
    hhere 1 (by decide) hapart⟩

end Interpreter
end MiniLisp
