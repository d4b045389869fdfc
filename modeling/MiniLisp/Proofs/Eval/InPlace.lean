import MiniLisp.Eval.InPlace
import MiniLisp.Proofs.Scope.Binder

/-!
# A run in the forest does what a run on a chain does

The evaluator may work on the forest as a whole, or on the chain of one scope that has been
taken out of it.  Started in the same state, the two ways go on alike: they end with the same
value or error, write the same, and what the scope sees in the end is the chain that the other
run has come to.  Only in the forest do scopes pile up, one for each call of a lambda, and
their numbers depend on how many there were before; but no scope that was there before and
does not lie on the path is touched.
-/

namespace MiniLisp
namespace Forest

/-- A forest has come about from another by work in a scope: there may be new scopes, and
the old ones are at their places, those that cannot be seen from the scope unchanged. -/
structure Grown (e : ScopeId) (f g : Forest) : Prop where
  next_le : f.next ≤ g.next
  ancestorsOf : ∀ s < f.next, g.ancestorsOf s = f.ancestorsOf s
  others : ∀ s < f.next, s ∉ f.path e → g.scopes[s]? = f.scopes[s]?

namespace Grown

variable {e : ScopeId} {f g h : Forest}

theorem refl (e : ScopeId) (f : Forest) : f.Grown e f :=
  ⟨Nat.le_refl _, fun _ _ => rfl, fun _ _ _ => rfl⟩

theorem path_eq (hfg : f.Grown e g) (he : e < f.next) : g.path e = f.path e := by
  unfold path
  rw [hfg.ancestorsOf e he]

theorem trans (he : e < f.next) (hfg : f.Grown e g) (hgh : g.Grown e h) : f.Grown e h where
  next_le := Nat.le_trans hfg.next_le hgh.next_le
  ancestorsOf s hs := by
    rw [hgh.ancestorsOf s (Nat.lt_of_lt_of_le hs hfg.next_le), hfg.ancestorsOf s hs]
  others s hs hpath := by
    rw [hgh.others s (Nat.lt_of_lt_of_le hs hfg.next_le), hfg.others s hs hpath]
    rwa [hfg.path_eq he]

theorem restore (f : Forest) (e : ScopeId) (c : Chain) : f.Grown e (f.restore e c) where
  next_le := Nat.le_of_eq (next_restore f e c).symm
  ancestorsOf s _ := ancestorsOf_restore f e s c
  others _ _ hs := getElem?_restore_of_notMem hs c

/-- The old scopes are as if what the scope sees in the end had been put back. -/
theorem getElem?_eq_restore (hf : f.WellFormed) (he : e < f.next) (hg : f.Grown e g)
    {s : ScopeId} (hs : s < f.next) :
    g.scopes[s]? = (f.restore e (g.chain e)).scopes[s]? := by
  by_cases hpath : s ∈ f.path e
  · apply getElem?_eq_of_bindingsOf
    · exact Nat.lt_of_lt_of_le hs hg.next_le
    · rwa [next_restore]
    · rw [hg.ancestorsOf s hs, ancestorsOf_restore]
    · have hdepth : (g.chain e).depth = f.depth e := by
        rw [depth_chain, depth, depth, hg.ancestorsOf e he]
      have hscopes := hf.scopes_chain_restore he hdepth
      rw [scopes_chain, scopes_chain, path_restore, hg.path_eq he] at hscopes
      exact (List.map_inj_left.mp hscopes s hpath).symm
  · rw [hg.others s hs hpath, getElem?_restore_of_notMem hpath]

/-- Work in a new scope inside a scope is work in that scope. -/
theorem of_child {c : Chain} (hg : ((f.child e).restore f.next c).Grown f.next g) :
    f.Grown e g := by
  have hlt : ∀ s < f.next, s < ((f.child e).restore f.next c).next := by
    intro s hs
    rw [next_restore, next_child]
    exact Nat.lt_succ_of_lt hs
  have hne : ∀ s < f.next, s ≠ f.next := fun s hs => Nat.ne_of_lt hs
  refine ⟨?_, ?_, ?_⟩
  · have hle := hg.next_le
    rw [next_restore, next_child] at hle
    exact Nat.le_of_succ_le hle
  · intro s hs
    rw [hg.ancestorsOf s (hlt s hs), ancestorsOf_restore, Forest.child, ancestorsOf_push,
      if_neg (hne s hs)]
  · intro s hs hpath
    have hnotMem : s ∉ (f.child e).path f.next := by
      unfold path
      rw [ancestorsOf_child, List.mem_cons, not_or]
      exact ⟨hne s hs, hpath⟩
    have hold : (f.child e).scopes[s]? = f.scopes[s]? := by
      exact (Array.getElem?_push ..).trans (if_neg (hne s hs))
    rw [hg.others s (hlt s hs), getElem?_restore_of_notMem hnotMem, hold]
    rwa [path_restore]

end Grown
end Forest

/-! ## Two runs side by side -/

/-- The world as a run in a scope sees it. -/
def World.seenFrom (w : World) (e : ScopeId) : Run :=
  ⟨w.forest.chain e, w.console⟩

/-- A run in a scope of a forest has ended, and a run on a chain has ended with what the
scope sees then. -/
inductive World.EndsAs (f : Forest) (e : ScopeId) :
    EStateM.Result Stop World α → EStateM.Result Stop Run α → Prop
  | ok (v : α) {w : World} : w.forest.WellFormed → f.Grown e w.forest →
      EndsAs f e (.ok v w) (.ok v (w.seenFrom e))
  | error (stop : Stop) {w : World} : w.forest.WellFormed → f.Grown e w.forest →
      EndsAs f e (.error stop w) (.error stop (w.seenFrom e))

theorem World.EndsAs.of_grown {f g : Forest} {e : ScopeId} (he : e < f.next)
    (hgrown : f.Grown e g) {x : EStateM.Result Stop World α} {y : EStateM.Result Stop Run α}
    (h : World.EndsAs g e x y) : World.EndsAs f e x y := by
  cases h with
  | ok v hw hlater => exact .ok v hw (hgrown.trans he hlater)
  | error stop hw hlater => exact .error stop hw (hgrown.trans he hlater)

namespace ForestM

/-- In whatever scope the computation starts, it ends as the one on the chain of that scope
does. -/
def Enacts (k : ForestM α) (m : EvalM α) : Prop :=
  ∀ (e : ScopeId) (w : World), w.forest.WellFormed → e < w.forest.next →
    World.EndsAs w.forest e (k e w) (m (w.seenFrom e))

theorem Enacts.bind {k : ForestM α} {m : EvalM α} {l : α → ForestM β} {n : α → EvalM β}
    (hfirst : k.Enacts m) (hnext : ∀ v, (l v).Enacts (n v)) : (k >>= l).Enacts (m >>= n) := by
  intro e w hw he
  have hmiddle := hfirst e w hw he
  change World.EndsAs w.forest e (EStateM.bind (k e) (fun v => l v e) w)
    (EStateM.bind m n (w.seenFrom e))
  unfold EStateM.bind
  generalize k e w = x at hmiddle
  generalize m (w.seenFrom e) = y at hmiddle
  cases hmiddle with
  | ok v hmiddle hgrown =>
      exact (hnext v e _ hmiddle (Nat.lt_of_lt_of_le he hgrown.next_le)).of_grown he hgrown
  | error stop hmiddle hgrown => exact .error stop hmiddle hgrown

theorem Enacts.look {l : Chain → ForestM α} {n : Chain → EvalM α}
    (hnext : ∀ c, (l c).Enacts (n c)) : (ForestM.chain >>= l).Enacts (EvalM.chain >>= n) :=
  fun e w => hnext (w.forest.chain e) e w

/-- An operation in a scope does what one on the chain of the scope does, once that has been
put back. -/
theorem Enacts.update {op : Forest → ScopeId → Except EvalError Forest}
    {change : Chain → Except EvalError Chain}
    (hop : ∀ f e, f.WellFormed → e < f.next → op f e = f.restore e <$> change (f.chain e))
    (hdepth : ∀ c d, change c = .ok d → d.depth = c.depth) :
    (ForestM.update op).Enacts (EvalM.update change) := by
  intro e w hw he
  unfold ForestM.update EvalM.update World.seenFrom
  rw [hop w.forest e hw he]
  dsimp only
  cases hchange : change (w.forest.chain e) with
  | error error => exact .error _ hw (.refl e w.forest)
  | ok c =>
      have hc : (w.forest.restore e c).chain e = c := by
        apply hw.chain_restore he
        rw [hdepth _ c hchange, Forest.depth_chain]
      have hend : World.EndsAs w.forest e _ _ :=
        .ok () (w := ⟨w.forest.restore e c, w.console⟩) (hw.restore e c)
          (.restore w.forest e c)
      rwa [World.seenFrom, hc] at hend

theorem Enacts.write (f : Console → Console) :
    (ForestM.write f).Enacts (modify fun run => { run with console := f run.console }) :=
  fun e w hw _ => .ok PUnit.unit (w := ⟨w.forest, f w.console⟩) hw (.refl e w.forest)

end ForestM

/-! ## The scope of a call -/

section Child

variable {f : Forest} (hf : f.WellFormed) {e : ScopeId} (he : e < f.next)
include hf he

theorem Forest.WellFormed.chain_bindAll_child (params : List String) (args : List Value) :
    ((f.child e).bindAll f.next params args).chain f.next =
      (f.chain e).push (.ofParams params args) := by
  rw [hf.bindAll_child he]
  apply (hf.child he).chain_restore (f.next_lt_next_child e)
  rw [Chain.depth_push, depth_chain, depth_child]

omit hf in
/-- When the scope of a call is left, its caller sees what is around it. -/
theorem Forest.Grown.pop_chain {c : Chain} {g : Forest}
    (hg : ((f.child e).restore f.next c).Grown f.next g) :
    (g.chain f.next).pop = g.chain e := by
  have hpath : g.ancestorsOf f.next = f.path e := by
    rw [hg.ancestorsOf, ancestorsOf_restore, ancestorsOf_child]
    rw [next_restore]
    exact f.next_lt_next_child e
  unfold chain
  rw [hpath, hg.of_child.ancestorsOf e he]
  rfl

end Child

theorem ForestM.Enacts.inside {k : ForestM α} {m : EvalM α} (hbody : k.Enacts m)
    (params : List String) (args : List Value) :
    (ForestM.inside params args k).Enacts (EvalM.inside (.ofParams params args) m) := by
  intro e w hw he
  have hstart := hw.bindAll_child he params args
  have hlt : w.forest.next < ((w.forest.child e).bindAll w.forest.next params args).next := by
    rw [hstart, Forest.next_restore]
    exact w.forest.next_lt_next_child e
  have hend := hbody w.forest.next
    ⟨(w.forest.child e).bindAll w.forest.next params args, w.console⟩
    (hstart ▸ (hw.child he).restore _ _) hlt
  unfold ForestM.inside EvalM.inside
  rw [World.seenFrom, hw.chain_bindAll_child he] at hend
  dsimp only at hend ⊢
  rw [World.seenFrom]
  generalize k w.forest.next _ = x at hend ⊢
  generalize m ⟨(w.forest.chain e).push (.ofParams params args), w.console⟩ = y at hend ⊢
  cases hend with
  | ok v hlast hgrown =>
      rw [hstart] at hgrown
      dsimp only [World.seenFrom]
      rw [hgrown.pop_chain he]
      exact .ok v hlast hgrown.of_child
  | error stop hlast hgrown =>
      rw [hstart] at hgrown
      dsimp only [World.seenFrom]
      rw [hgrown.pop_chain he]
      exact .error stop hlast hgrown.of_child

/-! ## The evaluators -/

theorem ForestM.enacts_congruent :
    Scoped.NearlyCongruent (m := ForestM) (n := EvalM) ForestM.Enacts where
  pure v e w hw _ := .ok v hw (.refl e w.forest)
  bind := Enacts.bind
  fail error _ e w hw _ := .error (.failed error) hw (.refl e w.forest)
  look hnext _ := Enacts.look hnext
  define name v := Enacts.update (fun _ _ hf he => hf.define_eq_restore he name v)
    fun _ _ h => (Chain.Extends.define h).depth_eq
  set name v := Enacts.update (fun _ _ hf he => hf.set_eq_restore he name v)
    fun _ _ h => (Chain.SameNames.set h).extends.depth_eq
  print line := Enacts.write (·.print line)
  tell event := Enacts.write (·.tell event)
  inside params args hbody := hbody.inside params args

/-- A call in the forest does what the call on the chain does. -/
theorem ForestM.call_enacts (fuel : Nat) (f : Function) (args : List Value) :
    (ForestM.call fuel f args).Enacts (MiniLisp.call fuel f args) := by
  induction fuel generalizing f args with
  | zero => exact fun e w hw _ => .error .outOfFuel hw (.refl e w.forest)
  | succ fuel ih =>
      apply ForestM.enacts_congruent.function ih
      exact fun _ op _ e w hw _ => .error _ hw (.refl e w.forest)

end MiniLisp
