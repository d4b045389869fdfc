import MiniLisp.Proofs.Scope.Forest

/-!
# How deep scopes lie

From every scope of a forest that has come about, the way outwards from parent to parent
ends in a root and meets no scope twice.  The depth of the scope is the length of that
way, and it is limited.

The second part is about the scope that the body of a lambda runs in: a new one inside
the scope of the call, in which the parameters are bound.
-/

namespace MiniLisp
namespace Forest

/-- The scopes that one meets on the way from a scope outwards to a root. -/
inductive Outward (f : Forest) : ScopeId → List ScopeId → Prop
  | root {e : ScopeId} : f.parent? e = none → Outward f e []
  | inside {e p : ScopeId} {ps : List ScopeId} :
      f.parent? e = some p → Outward f p ps → Outward f e (p :: ps)

theorem WellFormed.outward {f : Forest} (hf : f.WellFormed) (e : ScopeId) :
    f.Outward e (f.ancestorsOf e) := by
  induction e using Nat.strongRecOn with
  | _ e ih =>
      rcases hf e with hroot | ⟨p, hp, hpath⟩
      · rw [hroot]
        apply Outward.root
        rw [parent?, hroot]
        rfl
      · rw [hpath]
        refine Outward.inside ?_ (ih p hp)
        rw [parent?, hpath]
        rfl

theorem depth_push (f : Forest) (scope : Scope) (s : ScopeId) :
    (Forest.mk (f.scopes.push scope)).depth s =
      if s = f.next then scope.ancestors.length else f.depth s := by
  unfold depth
  rw [ancestorsOf_push]
  split <;> rfl

@[simp] theorem depth_restore (f : Forest) (e s : ScopeId) (c : Chain) :
    (f.restore e c).depth s = f.depth s := by
  unfold depth
  rw [ancestorsOf_restore]

theorem addChild_eq_ok {f g : Forest} {e : ScopeId} :
    f.addChild e = .ok g ↔ f.depth e < maxDepth ∧ f.child e = g := by
  unfold addChild
  split
  next hroom => simp [hroom]
  next hroom => simp [hroom]

theorem next_child (f : Forest) (e : ScopeId) : (f.child e).next = f.next + 1 :=
  Array.size_push _

theorem next_lt_next_child (f : Forest) (e : ScopeId) : f.next < (f.child e).next := by
  rw [next_child]
  exact Nat.lt_succ_self f.next

theorem ancestorsOf_child (f : Forest) (e : ScopeId) :
    (f.child e).ancestorsOf f.next = f.path e := by
  rw [Forest.child, ancestorsOf_push, if_pos rfl]

theorem depth_child (f : Forest) (e : ScopeId) : (f.child e).depth f.next = f.depth e + 1 := by
  rw [depth, ancestorsOf_child]
  rfl

theorem bindingsOf_child (f : Forest) (e : ScopeId) {s : ScopeId} (hs : s < f.next) :
    (f.child e).bindingsOf s = f.bindingsOf s := by
  have hne : s ≠ f.scopes.size := Nat.ne_of_lt hs
  unfold Forest.child bindingsOf
  rw [Array.getElem?_push, if_neg hne]

theorem Reachable.depth_le {f : Forest} (h : f.Reachable) (e : ScopeId) :
    f.depth e ≤ maxDepth := by
  apply h.invariant (P := fun f => f.depth e ≤ maxDepth)
  · exact Nat.zero_le maxDepth
  · intro f bindings hf
    rw [Forest.addRoot, depth_push]
    split
    · exact Nat.zero_le maxDepth
    · exact hf
  · intro f g e' hf _ hadd
    obtain ⟨hroom, rfl⟩ := addChild_eq_ok.mp hadd
    rw [child, depth_push]
    split
    · exact hroom
    · exact hf
  · intro f e' c hf
    rw [depth_restore]
    exact hf

theorem WellFormed.restore_chain {f : Forest} (hf : f.WellFormed) {e : ScopeId}
    (he : e < f.next) : f.restore e (f.chain e) = f :=
  hf.restore_chain_of_notMem he rfl (fun _ => rfl) fun _ _ => rfl

/-! ## The scope of a call -/

/-- Add a scope inside the given one, and bind parameters to arguments there. -/
def enter (f : Forest) (e : ScopeId) (params : List String) (args : List Value) :
    Except EvalError Forest := do
  let g ← f.addChild e
  return g.bindAll f.next params args

theorem Reachable.bindAll {f : Forest} (hf : f.Reachable) (e : ScopeId) (params : List String)
    (args : List Value) : (f.bindAll e params args).Reachable := by
  unfold Forest.bindAll
  generalize params.zip args = pairs
  induction pairs generalizing f with
  | nil => exact hf
  | cons pair pairs ih => exact ih (.bind e pair.1 pair.2 hf)

theorem Reachable.enter {f g : Forest} (hf : f.Reachable) {e : ScopeId} (he : e < f.next)
    {params : List String} {args : List Value} (h : f.enter e params args = .ok g) :
    g.Reachable := by
  unfold Forest.enter at h
  cases hadd : f.addChild e with
  | error error =>
      rw [hadd] at h
      cases h
  | ok child =>
      rw [hadd] at h
      cases h
      exact (Reachable.addChild hf he hadd).bindAll f.next params args

theorem foldl_bind_push (c : Chain) (bindings : Bindings) (pairs : List (String × Value)) :
    pairs.foldl (fun c (name, v) => c.bind name v) (c.push bindings) =
      c.push (pairs.foldl (fun scope (name, v) => scope.insert name v) bindings) := by
  induction pairs generalizing bindings with
  | nil => rfl
  | cons pair pairs ih => exact ih (bindings.insert pair.1 pair.2)

section Child

variable {f : Forest} (hf : f.WellFormed) {e : ScopeId} (he : e < f.next)
include hf he

theorem WellFormed.foldl_bind_restore (pairs : List (String × Value)) {c : Chain}
    (hc : c.depth = f.depth e) :
    pairs.foldl (fun f (name, v) => f.bind e name v) (f.restore e c) =
      f.restore e (pairs.foldl (fun c (name, v) => c.bind name v) c) := by
  induction pairs generalizing c with
  | nil => rfl
  | cons pair pairs ih =>
      obtain ⟨name, v⟩ := pair
      have hbind : (f.restore e c).bind e name v = f.restore e (c.bind name v) := by
        have he' : e < (f.restore e c).next := by
          rwa [next_restore]
        rw [bind, (hf.restore e c).put_eq_restore_bind he', hf.chain_restore he hc]
        exact hf.restore_restore he hc
      simp only [List.foldl_cons, hbind]
      exact ih hc

theorem WellFormed.child : (f.child e).WellFormed :=
  hf.push (.inr ⟨e, he, rfl⟩)

theorem WellFormed.chain_child : (f.child e).chain f.next = (f.chain e).push ∅ := by
  have hinner : (f.child e).bindingsOf f.next = ∅ := by
    unfold Forest.child bindingsOf next
    rw [Array.getElem?_push, if_pos rfl]
  have houter : (f.path e).map (f.child e).bindingsOf = (f.path e).map f.bindingsOf := by
    apply List.map_inj_left.mpr
    intro s hs
    exact bindingsOf_child f e (hf.lt_next_of_mem_path he hs)
  rw [chain, hinner, ancestorsOf_child, houter]
  rfl

theorem WellFormed.bindAll_child (params : List String) (args : List Value) :
    (f.child e).bindAll f.next params args =
      (f.child e).restore f.next ((f.chain e).push (.ofParams params args)) := by
  have hchild : (f.child e).WellFormed := hf.child he
  have hnext : f.next < (f.child e).next := next_lt_next_child f e
  have hfold := hchild.foldl_bind_restore hnext (params.zip args) (depth_chain _ f.next)
  rw [hchild.restore_chain hnext, hf.chain_child he, foldl_bind_push] at hfold
  exact hfold

theorem WellFormed.enter (hroom : f.depth e < maxDepth) (params : List String)
    (args : List Value) :
    f.enter e params args =
      .ok ((f.child e).restore f.next ((f.chain e).push (.ofParams params args))) := by
  have hadd : f.addChild e = .ok (f.child e) := addChild_eq_ok.mpr ⟨hroom, rfl⟩
  unfold Forest.enter
  rw [hadd, ← hf.bindAll_child he]
  rfl

end Child

/-! ## The scopes around it -/

theorem bindingsOf_write {f : Forest} {s : ScopeId} (hs : s < f.next) (e : ScopeId)
    (bindings : Bindings) :
    (f.write e bindings).bindingsOf s = if e = s then bindings else f.bindingsOf s := by
  by_cases heq : e = s
  · subst heq
    rw [if_pos rfl, bindingsOf_write_self hs]
  · unfold bindingsOf
    rw [getElem?_write, if_neg heq, if_neg heq]

/-- What is written to a scope does not depend on other scopes. -/
theorem bindingsOf_writeAll_congr {f g : Forest} {s : ScopeId} (hf : s < f.next)
    (hg : s < g.next) (h : f.bindingsOf s = g.bindingsOf s)
    (pairs : List (ScopeId × Bindings)) :
    (f.writeAll pairs).bindingsOf s = (g.writeAll pairs).bindingsOf s := by
  induction pairs generalizing f g with
  | nil => exact h
  | cons pair pairs ih =>
      apply ih
      · rwa [next_write]
      · rwa [next_write]
      · rw [bindingsOf_write hf, bindingsOf_write hg, h]

/-- Putting a chain back in an inner scope does to the scopes around it what putting back
the outer part of the chain does. -/
theorem bindingsOf_restore_child (f : Forest) (e : ScopeId) {c : Chain} (hc : 0 < c.depth)
    {s : ScopeId} (hs : s < f.next) :
    ((f.child e).restore f.next c).bindingsOf s = (f.restore e c.pop).bindingsOf s := by
  have hscopes : c.scopes = c.inner :: c.pop.scopes := by
    unfold Chain.pop
    split
    next houter => simp [Chain.depth, houter] at hc
    next scope rest houter => rw [Chain.scopes, houter]; rfl
  have hpath : (f.child e).path f.next = f.next :: f.path e := by
    rw [path, ancestorsOf_child]
  have hs' : s < (f.child e).next := by
    rw [next_child]
    exact Nat.lt_succ_of_lt hs
  rw [restore_eq_writeAll, restore_eq_writeAll, hpath, hscopes, List.zip_cons_cons]
  change (((f.child e).write f.next c.inner).writeAll _).bindingsOf s = _
  apply bindingsOf_writeAll_congr
  · rwa [next_write]
  · exact hs
  · rw [bindingsOf_write hs', if_neg (Nat.ne_of_gt hs), bindingsOf_child f e hs]

/-! ## Nested scopes -/

/-- A root and as many scopes as given, each inside the one before. -/
def nested : Nat → Forest
  | 0 => empty.addRoot ∅
  | n + 1 => (nested n).child n

theorem next_nested (n : Nat) : (nested n).next = n + 1 := by
  induction n with
  | zero => rfl
  | succ n ih => rw [nested, next_child, ih]

theorem depth_nested {n k : Nat} (hk : k ≤ n) : (nested n).depth k = k := by
  induction n generalizing k with
  | zero =>
      rw [Nat.le_zero.mp hk]
      rfl
  | succ n ih =>
      rw [nested, child, depth_push, next_nested]
      split
      next heq =>
        rw [heq]
        exact congrArg (· + 1) (ih (Nat.le_refl n))
      next hne => exact ih (Nat.le_of_lt_succ (Nat.lt_of_le_of_ne hk hne))

theorem reachable_nested {n : Nat} (hn : n ≤ maxDepth) : (nested n).Reachable := by
  induction n with
  | zero => exact .addRoot ∅ .empty
  | succ n ih =>
      have hlt : n < (nested n).next := by
        rw [next_nested]
        exact Nat.lt_succ_self n
      have hroom : (nested n).depth n < maxDepth := by
        rw [depth_nested (Nat.le_refl n)]
        exact hn
      exact .addChild (ih (Nat.le_of_succ_le hn)) hlt (addChild_eq_ok.mpr ⟨hroom, rfl⟩)

end Forest
end MiniLisp
