import MiniLisp.Proofs.Eval.Isolation
import MiniLisp.Proofs.Interpreter.Footprint

/-!
# Isolation

A call in a scope sees that scope and those around it, and nothing else of the
forest.  Two forests may differ in all other scopes, so that even the scopes that the
call adds have different numbers there, and the call ends in both with the same value or
error, writes the same, and leaves the scopes it sees the same.  It is seen by way of the
run on the chain of the scope, which has nothing else to look at.
-/

namespace MiniLisp
namespace Forest

/-- A scope and all those around it have the same place and the same bindings in
both forests. -/
def AgreeOn (f g : Forest) (e : ScopeId) : Prop :=
  ∀ s ∈ f.path e,
    f.parent? s = g.parent? s ∧ f.depth s = g.depth s ∧
      (f.bindingsOf s).Equiv (g.bindingsOf s)

theorem WellFormed.ancestorsOf_eq_parent_cons {f : Forest} (hf : f.WellFormed)
    {e p : ScopeId} (hp : f.parent? e = some p) : f.ancestorsOf e = f.path p := by
  unfold parent? at hp
  rcases hf e with hroot | ⟨q, _, hpath⟩
  · rw [hroot] at hp
    cases hp
  · rw [hpath] at hp ⊢
    cases hp
    rfl

theorem ancestorsOf_eq_nil_of_parent {f : Forest} {e : ScopeId} (hp : f.parent? e = none) :
    f.ancestorsOf e = [] :=
  List.head?_eq_none_iff.mp hp

theorem AgreeOn.path_eq {f g : Forest} (hf : f.WellFormed) (hg : g.WellFormed)
    {e : ScopeId} (h : f.AgreeOn g e) : f.path e = g.path e := by
  induction e using Nat.strongRecOn with
  | _ e ih =>
      have hparent := (h e List.mem_cons_self).1
      unfold path
      rcases hf e with hroot | ⟨p, hp, hpath⟩
      · have hnone : g.parent? e = none := by
          rw [← hparent]
          unfold parent?
          rw [hroot]
          rfl
        rw [hroot, ancestorsOf_eq_nil_of_parent hnone]
      · have hsome : g.parent? e = some p := by
          rw [← hparent]
          unfold parent?
          rw [hpath]
          rfl
        have hrest : f.AgreeOn g p := by
          intro s hs
          apply h s
          unfold path
          rw [hpath]
          exact List.mem_cons_of_mem e hs
        rw [hpath, hg.ancestorsOf_eq_parent_cons hsome, ih p hp hrest]

theorem AgreeOn.chain {f g : Forest} (hf : f.WellFormed) (hg : g.WellFormed)
    {e : ScopeId} (h : f.AgreeOn g e) : (f.chain e).Alike (g.chain e) := by
  unfold Chain.Alike
  rw [scopes_chain, scopes_chain, ← h.path_eq hf hg, List.forall₂_map_left_iff,
    List.forall₂_map_right_iff, List.forall₂_same]
  exact fun s hs => (h s hs).2.2

/-- Chains with the same bindings, put back into forests that agree, make forests
that agree. -/
theorem AgreeOn.restore {f g : Forest} (hf : f.WellFormed) (hg : g.WellFormed)
    {e : ScopeId} (hef : e < f.next) (heg : e < g.next) (h : f.AgreeOn g e) {c d : Chain}
    (hc : c.depth = f.depth e) (hd : d.depth = g.depth e) (hcd : c.Alike d) :
    (f.restore e c).AgreeOn (g.restore e d) e := by
  unfold Chain.Alike at hcd
  rw [← hf.scopes_chain_restore hef hc, ← hg.scopes_chain_restore heg hd, scopes_chain,
    scopes_chain, path_restore, path_restore, ← h.path_eq hf hg, List.forall₂_map_left_iff,
    List.forall₂_map_right_iff, List.forall₂_same] at hcd
  intro s hs
  rw [path_restore] at hs
  obtain ⟨hparent, hdepth, _⟩ := h s hs
  refine ⟨?_, ?_, hcd s hs⟩
  · unfold parent? at hparent ⊢
    rw [ancestorsOf_restore, ancestorsOf_restore, hparent]
  · unfold depth at hdepth ⊢
    rw [ancestorsOf_restore, ancestorsOf_restore, hdepth]

/-- Whether two forests agree is a matter of the scopes on the path alone. -/
theorem AgreeOn.congr {f f' g g' : Forest} {e : ScopeId} (h : f.AgreeOn g e)
    (hpath : f.path e = g.path e) (hf : ∀ s ∈ f.path e, f'.scopes[s]? = f.scopes[s]?)
    (hg : ∀ s ∈ g.path e, g'.scopes[s]? = g.scopes[s]?) : f'.AgreeOn g' e := by
  have hsame : f'.path e = f.path e := by
    unfold path ancestorsOf
    rw [hf e List.mem_cons_self]
  intro s hs
  rw [hsame] at hs
  have hagree := h s hs
  unfold parent? depth ancestorsOf bindingsOf at hagree ⊢
  rw [hf s hs, hg s (hpath ▸ hs)]
  exact hagree

end Forest

namespace Interpreter

section Isolation

variable {i j : Interpreter} (hi : i.forest.WellFormed) (hj : j.forest.WellFormed)
  {e : ScopeId} (hei : e < i.forest.next) (hej : e < j.forest.next)
  (hagree : i.forest.AgreeOn j.forest e)
include hi hj hei hej hagree

theorem isolated_within (fuel : Nat) (f : Function) (args : List Value) :
    let x := i.within e (call fuel f args)
    let y := j.within e (call fuel f args)
    x.1 = y.1 ∧
      (∃ written, x.2.console = i.console.append written ∧
        y.2.console = j.console.append written) ∧
      x.2.forest.AgreeOn y.2.forest e := by
  intro x y
  have hchain := hagree.chain hi hj
  have hstart : Run.Alike i.console j.console
      ⟨i.forest.chain e, i.console⟩ ⟨j.forest.chain e, j.console⟩ :=
    ⟨hchain, .empty, i.console.append_empty.symm, j.console.append_empty.symm⟩
  have hend := EvalM.isolated_closed.call fuel f args _ _ _ _ hstart
  have hdepthI := (call_framed fuel f args ⟨i.forest.chain e, i.console⟩).depth_eq
  have hdepthJ := (call_framed fuel f args ⟨j.forest.chain e, j.console⟩).depth_eq
  have hforest : ∀ r s : Run, r.chain.depth = (i.forest.chain e).depth →
      s.chain.depth = (j.forest.chain e).depth → r.chain.Alike s.chain →
      (i.forest.restore e r.chain).AgreeOn (j.forest.restore e s.chain) e := by
    intro r s hr hs halike
    rw [Forest.depth_chain] at hr hs
    exact hagree.restore hi hj hei hej hr hs halike
  unfold EvalM.after at hdepthI hdepthJ
  simp only [x, y, within]
  generalize call fuel f args ⟨i.forest.chain e, i.console⟩ = p at hend hdepthI
  generalize call fuel f args ⟨j.forest.chain e, j.console⟩ = q at hend hdepthJ
  cases hend with
  | ok v halike =>
      exact ⟨rfl, halike.console, hforest _ _ hdepthI hdepthJ halike.chain⟩
  | error stop halike =>
      exact ⟨rfl, halike.console, hforest _ _ hdepthI hdepthJ halike.chain⟩

end Isolation

/-- A call in a scope `e` of the forest sees nothing but `e` and the scopes around it: in
two forests that agree on these it ends with the same value or error, writes the same
to whatever was written before, and leaves forests that agree on them again.  All of this
is also how the run ends that an interpreter makes on the chain of `e`. -/
theorem isolation_call (i j : Interpreter) (hi : i.forest.WellFormed)
    (hj : j.forest.WellFormed) (e : ScopeId) (hei : e < i.forest.next)
    (hej : e < j.forest.next) (hagree : i.forest.AgreeOn j.forest e)
    (fuel : Nat) (f : Function) (args : List Value) :
    let x := i.inPlace e (ForestM.call fuel f args)
    let y := j.inPlace e (ForestM.call fuel f args)
    x.1 = y.1 ∧
      (∃ written, x.2.console = i.console.append written ∧
        y.2.console = j.console.append written) ∧
      x.2.forest.AgreeOn y.2.forest e ∧
      i.EndsInPlace e x (i.within e (call fuel f args)) := by
  intro x y
  have hx := endsInPlace hi hei (ForestM.call_enacts fuel f args)
  have hy := endsInPlace hj hej (ForestM.call_enacts fuel f args)
  obtain ⟨houtcome, ⟨written, hwrittenI, hwrittenJ⟩, hforests⟩ :=
    isolated_within hi hj hei hej hagree fuel f args
  refine ⟨?_, ⟨written, ?_, ?_⟩, ?_, hx⟩
  · rw [hx.outcome, houtcome, hy.outcome]
  · rw [hx.console, hwrittenI]
  · rw [hy.console, hwrittenJ]
  · apply hforests.congr
    · simp only [forest_within, Forest.path_restore]
      exact hagree.path_eq hi hj
    · intro s hs
      rw [forest_within, Forest.path_restore] at hs
      exact hx.scopes s (hi.lt_next_of_mem_path hei hs)
    · intro s hs
      rw [forest_within, Forest.path_restore] at hs
      exact hy.scopes s (hj.lt_next_of_mem_path hej hs)

/-- The two forests bind the same two names in different orders, only one of them
has a second scope, and only one interpreter has printed before.  A lambda overwrites one
of the names with its argument; the number of its scope is 1 in one forest and 2 in the
other. -/
theorem isolation_across_orders :
    let xy : Bindings := ((∅ : Bindings).insert "x" (.int 1)).insert "y" (.int 2)
    let yx : Bindings := ((∅ : Bindings).insert "y" (.int 2)).insert "x" (.int 1)
    let i : Interpreter := { new .standard with forest := Forest.empty.addRoot xy }
    let j : Interpreter :=
      { new .standard with
        forest := (Forest.empty.addRoot yx).addRoot .standard
        console := Console.empty.print "before" }
    let f : Function :=
      .lambda 0 ["z"] [.function (.thunk 1 (.set (.str "x") (.function (.deferred 2 "z"))))]
    let x := i.inPlace 0 (ForestM.call 4 f [.int 3])
    let y := j.inPlace 0 (ForestM.call 4 f [.int 3])
    i.forest.AgreeOn j.forest 0 ∧ x.1 = .ok (.int 3) ∧ x.1 = y.1 ∧
      x.2.forest.next = 2 ∧ y.2.forest.next = 3 ∧ x.2.forest.AgreeOn y.2.forest 0 := by
  intro xy yx i j f
  have hi : i.forest.WellFormed := (Forest.Reachable.addRoot xy .empty).wellFormed
  have hj : j.forest.WellFormed :=
    (Forest.Reachable.addRoot .standard (.addRoot yx .empty)).wellFormed
  have hequiv : xy.Equiv yx := by
    apply Std.TreeMap.Equiv.of_forall_constGet?_eq
    intro name
    simp only [xy, yx, Std.TreeMap.getElem?_insert, Std.LawfulEqCmp.compare_eq_iff_eq]
    by_cases hx : "x" = name
    · subst name
      simp
    · simp only [hx, if_false]
  have hagree : i.forest.AgreeOn j.forest 0 := by
    intro s hs
    obtain rfl : s = 0 := List.mem_singleton.mp hs
    exact ⟨rfl, rfl, hequiv⟩
  obtain ⟨hsame, _, hforests, hends⟩ :=
    isolation_call i j hi hj 0 (by decide) (by decide) hagree 4 f [.int 3]
  have hvalue : (i.within 0 (call 4 f [.int 3])).1 = .ok (.int 3) := rfl
  exact ⟨hagree, hends.outcome.trans hvalue, hsame, by decide +kernel, by decide +kernel, hforests⟩

end Interpreter
end MiniLisp
