import Mathlib.Data.List.Nodup
import MiniLisp.Program
import MiniLisp.Proofs.Eval.Frame
import MiniLisp.Scope.Forest

/-!
# Well-formed forests

In a forest that was built step by step every scope lies in an older one, so the
path of a scope leads outwards without meeting a scope twice.  On such a path a
chain can be taken out of the forest and put back: the scopes of the path then
have the bindings of the chain, and all the others are as before.  A forest in which
one binding on the path has changed comes about in this way too.
-/

namespace MiniLisp

theorem Chain.eq_of_scopes {c d : Chain} (h : c.scopes = d.scopes) : c = d := by
  cases c
  cases d
  simpa [Chain.scopes] using h

namespace Forest

/-- A scope is a root, or it lies in an older scope and in all that this lies
in. -/
def WellFormed (f : Forest) : Prop :=
  ∀ e, f.ancestorsOf e = [] ∨ ∃ p < e, f.ancestorsOf e = f.path p

theorem ancestorsOf_eq_nil_of_next_le {f : Forest} {e : ScopeId} (h : f.next ≤ e) :
    f.ancestorsOf e = [] := by
  unfold ancestorsOf
  rw [Array.getElem?_eq_none h]

namespace WellFormed

variable {f : Forest} (hf : f.WellFormed)
include hf

/-- The scopes around a scope are older than it. -/
theorem lt_of_mem_ancestorsOf {e s : ScopeId} (hs : s ∈ f.ancestorsOf e) : s < e := by
  induction e using Nat.strongRecOn with
  | _ e ih =>
      rcases hf e with hroot | ⟨p, hp, hpath⟩
      · rw [hroot] at hs
        cases hs
      · rw [hpath] at hs
        rcases List.mem_cons.mp hs with rfl | hs
        · exact hp
        · exact Nat.lt_trans (ih p hp hs) hp

theorem nodup_path (e : ScopeId) : (f.path e).Nodup := by
  induction e using Nat.strongRecOn with
  | _ e ih =>
      apply List.nodup_cons.mpr
      constructor
      · intro hmem
        exact Nat.lt_irrefl e (hf.lt_of_mem_ancestorsOf hmem)
      · rcases hf e with hroot | ⟨p, hp, hpath⟩
        · rw [hroot]
          exact List.nodup_nil
        · rw [hpath]
          exact ih p hp

theorem lt_next_of_mem_path {e s : ScopeId} (he : e < f.next) (hs : s ∈ f.path e) :
    s < f.next := by
  rcases List.mem_cons.mp hs with rfl | hs
  · exact he
  · exact Nat.lt_trans (hf.lt_of_mem_ancestorsOf hs) he

end WellFormed

/-! ## Writing the bindings of several scopes -/

/-- Replace the bindings of scopes one after the other. -/
def writeAll (f : Forest) (pairs : List (ScopeId × Bindings)) : Forest :=
  pairs.foldl (fun f (e, bindings) => f.write e bindings) f

theorem restore_eq_writeAll (f : Forest) (e : ScopeId) (c : Chain) :
    f.restore e c = f.writeAll ((f.path e).zip c.scopes) := rfl

theorem getElem?_write (f : Forest) (e s : ScopeId) (bindings : Bindings) :
    (f.write e bindings).scopes[s]? =
      if e = s then f.scopes[s]?.map ({ · with bindings }) else f.scopes[s]? := by
  unfold write
  rw [Array.getElem?_modify]

@[simp] theorem next_write (f : Forest) (e : ScopeId) (bindings : Bindings) :
    (f.write e bindings).next = f.next := by
  unfold write next
  exact Array.size_modify

@[simp] theorem ancestorsOf_write (f : Forest) (e s : ScopeId) (bindings : Bindings) :
    (f.write e bindings).ancestorsOf s = f.ancestorsOf s := by
  unfold ancestorsOf
  rw [getElem?_write]
  by_cases heq : e = s
  · cases hs : f.scopes[s]? <;> simp [heq]
  · simp [heq]

theorem bindingsOf_write_self {f : Forest} {e : ScopeId} (he : e < f.next)
    (bindings : Bindings) : (f.write e bindings).bindingsOf e = bindings := by
  unfold bindingsOf
  rw [getElem?_write, if_pos rfl, Array.getElem?_eq_getElem he]
  rfl

theorem getElem?_writeAll_of_notMem {f : Forest} {pairs : List (ScopeId × Bindings)}
    {s : ScopeId} (hs : s ∉ pairs.map Prod.fst) :
    (f.writeAll pairs).scopes[s]? = f.scopes[s]? := by
  induction pairs generalizing f with
  | nil => rfl
  | cons pair pairs ih =>
      rw [List.map_cons, List.mem_cons, not_or] at hs
      change ((f.write pair.1 pair.2).writeAll pairs).scopes[s]? = f.scopes[s]?
      rw [ih hs.2, getElem?_write, if_neg (Ne.symm hs.1)]

@[simp] theorem next_writeAll (f : Forest) (pairs : List (ScopeId × Bindings)) :
    (f.writeAll pairs).next = f.next := by
  induction pairs generalizing f with
  | nil => rfl
  | cons pair pairs ih => exact (ih _).trans (next_write f pair.1 pair.2)

@[simp] theorem ancestorsOf_writeAll (f : Forest) (pairs : List (ScopeId × Bindings))
    (s : ScopeId) : (f.writeAll pairs).ancestorsOf s = f.ancestorsOf s := by
  induction pairs generalizing f with
  | nil => rfl
  | cons pair pairs ih => exact (ih _).trans (ancestorsOf_write f pair.1 s pair.2)

theorem map_bindingsOf_writeAll {f : Forest} {path : List ScopeId} {scopes : List Bindings}
    (hnodup : path.Nodup) (hlt : ∀ e ∈ path, e < f.next)
    (hlength : path.length = scopes.length) :
    path.map (f.writeAll (path.zip scopes)).bindingsOf = scopes := by
  induction path generalizing f scopes with
  | nil => exact (List.eq_nil_of_length_eq_zero hlength.symm).symm
  | cons e path ih =>
      cases scopes with
      | nil => simp at hlength
      | cons bindings scopes =>
          obtain ⟨hnotMem, hnodup⟩ := List.nodup_cons.mp hnodup
          have hrest := ih (f := f.write e bindings) hnodup
            (fun s hs => by simpa using hlt s (List.mem_cons_of_mem e hs))
            (by simpa using hlength)
          have hkeys : e ∉ (path.zip scopes).map Prod.fst := by
            intro hmem
            obtain ⟨pair, hpair, rfl⟩ := List.mem_map.mp hmem
            exact hnotMem (List.of_mem_zip hpair).1
          have hself :
              ((f.write e bindings).writeAll (path.zip scopes)).bindingsOf e = bindings := by
            unfold bindingsOf
            rw [getElem?_writeAll_of_notMem hkeys]
            exact bindingsOf_write_self (hlt e List.mem_cons_self) bindings
          change ((f.write e bindings).writeAll (path.zip scopes)).bindingsOf e ::
            path.map ((f.write e bindings).writeAll (path.zip scopes)).bindingsOf =
              bindings :: scopes
          rw [hself, hrest]

/-! ## Putting a chain back -/

@[simp] theorem ancestorsOf_restore (f : Forest) (e s : ScopeId) (c : Chain) :
    (f.restore e c).ancestorsOf s = f.ancestorsOf s := by
  rw [restore_eq_writeAll, ancestorsOf_writeAll]

@[simp] theorem next_restore (f : Forest) (e : ScopeId) (c : Chain) :
    (f.restore e c).next = f.next := by
  rw [restore_eq_writeAll, next_writeAll]

@[simp] theorem path_restore (f : Forest) (e s : ScopeId) (c : Chain) :
    (f.restore e c).path s = f.path s := by
  unfold path
  rw [ancestorsOf_restore]

/-- A scope that is not on the path is as before. -/
theorem getElem?_restore_of_notMem {f : Forest} {e s : ScopeId} (hs : s ∉ f.path e)
    (c : Chain) : (f.restore e c).scopes[s]? = f.scopes[s]? := by
  rw [restore_eq_writeAll]
  apply getElem?_writeAll_of_notMem
  intro hmem
  obtain ⟨pair, hpair, rfl⟩ := List.mem_map.mp hmem
  exact hs (List.of_mem_zip hpair).1

theorem scopes_chain (f : Forest) (e : ScopeId) :
    (f.chain e).scopes = (f.path e).map f.bindingsOf := rfl

@[simp] theorem depth_chain (f : Forest) (e : ScopeId) : (f.chain e).depth = f.depth e := by
  unfold chain Chain.depth depth
  exact List.length_map _

/-- The scopes on the path have the bindings of the chain that was put back. -/
theorem WellFormed.scopes_chain_restore {f : Forest} (hf : f.WellFormed) {e : ScopeId}
    (he : e < f.next) {c : Chain} (hc : c.depth = f.depth e) :
    ((f.restore e c).chain e).scopes = c.scopes := by
  rw [scopes_chain, path_restore, restore_eq_writeAll]
  apply map_bindingsOf_writeAll (hf.nodup_path e)
  · exact fun s hs => hf.lt_next_of_mem_path he hs
  · unfold path Chain.scopes
    rw [List.length_cons, List.length_cons]
    exact congrArg (· + 1) hc.symm

theorem WellFormed.restore {f : Forest} (hf : f.WellFormed) (e : ScopeId) (c : Chain) :
    (f.restore e c).WellFormed := by
  intro s
  rw [ancestorsOf_restore]
  simpa only [path_restore] using hf s

theorem WellFormed.chain_restore {f : Forest} (hf : f.WellFormed) {e : ScopeId}
    (he : e < f.next) {c : Chain} (hc : c.depth = f.depth e) : (f.restore e c).chain e = c :=
  Chain.eq_of_scopes (hf.scopes_chain_restore he hc)

/-- A scope is known by its place and its bindings. -/
theorem getElem?_eq_of_bindingsOf {f g : Forest} {s : ScopeId} (hf : s < f.next)
    (hg : s < g.next) (hancestors : f.ancestorsOf s = g.ancestorsOf s)
    (hbindings : f.bindingsOf s = g.bindingsOf s) : f.scopes[s]? = g.scopes[s]? := by
  unfold ancestorsOf at hancestors
  unfold bindingsOf at hbindings
  rw [Array.getElem?_eq_getElem hf, Array.getElem?_eq_getElem hg] at hancestors hbindings ⊢
  generalize f.scopes[s] = a at hancestors hbindings ⊢
  generalize g.scopes[s] = b at hancestors hbindings ⊢
  cases a
  cases b
  simp_all

/-- A forest is known by the places and the bindings of its scopes. -/
theorem eq_of_bindingsOf {f g : Forest} (hnext : f.next = g.next)
    (hancestors : ∀ s, f.ancestorsOf s = g.ancestorsOf s)
    (hbindings : ∀ s, f.bindingsOf s = g.bindingsOf s) : f = g := by
  have hscopes : f.scopes = g.scopes := by
    apply Array.ext_getElem?
    intro s
    by_cases hs : s < f.next
    · exact getElem?_eq_of_bindingsOf hs (hnext ▸ hs) (hancestors s) (hbindings s)
    · have hf : f.next ≤ s := Nat.le_of_not_lt hs
      have hg : g.next ≤ s := hnext ▸ hf
      rw [Array.getElem?_eq_none hf, Array.getElem?_eq_none hg]
  cases f
  cases g
  simp_all

/-- Of two chains that are put back one after the other, the second counts. -/
theorem WellFormed.restore_restore {f : Forest} (hf : f.WellFormed) {e : ScopeId}
    (he : e < f.next) {c d : Chain} (hd : d.depth = f.depth e) :
    (f.restore e c).restore e d = f.restore e d := by
  have hchain := hf.scopes_chain_restore he hd
  have hchain' : (((f.restore e c).restore e d).chain e).scopes = d.scopes := by
    apply (hf.restore e c).scopes_chain_restore
    · simpa using he
    · simpa [depth] using hd
  apply eq_of_bindingsOf
  · simp
  · simp
  · intro s
    by_cases hs : s ∈ f.path e
    · have hmap := hchain'.trans hchain.symm
      rw [scopes_chain, scopes_chain, path_restore, path_restore, path_restore] at hmap
      exact List.map_inj_left.mp hmap s hs
    · have hs' : s ∉ (f.restore e c).path e := by
        simpa using hs
      unfold bindingsOf
      rw [getElem?_restore_of_notMem hs', getElem?_restore_of_notMem hs,
        getElem?_restore_of_notMem hs]

/-! ## One binding -/

section Put

variable {f : Forest} {s : ScopeId} (name : String) (v : Value)

@[simp] theorem next_put : (f.put s name v).next = f.next :=
  next_write f s _

@[simp] theorem ancestorsOf_put (p : ScopeId) :
    (f.put s name v).ancestorsOf p = f.ancestorsOf p :=
  ancestorsOf_write f s p _

@[simp] theorem path_put (p : ScopeId) : (f.put s name v).path p = f.path p := by
  simp [path]

/-- One binding is changed by putting back a chain of which only the first scope is given. -/
theorem put_eq_restore (f : Forest) (s : ScopeId) :
    f.put s name v = f.restore s (.root ((f.bindingsOf s).insert name v)) := by
  rw [restore_eq_writeAll, path, Chain.root, Chain.scopes, List.zip_cons_cons,
    List.zip_nil_right]
  rfl

variable (hs : s < f.next)
include hs

theorem bindingsOf_put (p : ScopeId) :
    (f.put s name v).bindingsOf p =
      if s = p then (f.bindingsOf s).insert name v else f.bindingsOf p := by
  by_cases heq : s = p
  · subst heq
    rw [if_pos rfl]
    exact bindingsOf_write_self hs _
  · unfold put bindingsOf
    rw [getElem?_write, if_neg heq, if_neg heq]

theorem map_bindingsOf_put {path : List ScopeId} (hpath : s ∉ path) :
    path.map (f.put s name v).bindingsOf = path.map f.bindingsOf := by
  apply List.map_inj_left.mpr
  intro p hp
  have hne : s ≠ p := by
    rintro rfl
    exact hpath hp
  rw [bindingsOf_put name v hs, if_neg hne]

end Put

section Change

variable {f : Forest} (hf : f.WellFormed) {e : ScopeId} (he : e < f.next)
include hf he

/-- A forest that differs on one path only comes about by putting back its chain there. -/
theorem WellFormed.restore_chain_of_notMem {g : Forest} (hnext : g.next = f.next)
    (hancestors : ∀ s, g.ancestorsOf s = f.ancestorsOf s)
    (hothers : ∀ s, s ∉ f.path e → g.bindingsOf s = f.bindingsOf s) :
    f.restore e (g.chain e) = g := by
  have hpath : g.path e = f.path e := by
    simp [path, hancestors]
  have hdepth : (g.chain e).depth = f.depth e := by
    simp [depth, hancestors]
  have hscopes := hf.scopes_chain_restore he hdepth
  rw [scopes_chain, scopes_chain, path_restore, hpath] at hscopes
  apply eq_of_bindingsOf
  · simp [hnext]
  · simp [hancestors]
  · intro s
    by_cases hs : s ∈ f.path e
    · exact List.map_inj_left.mp hscopes s hs
    · rw [hothers s hs, bindingsOf, getElem?_restore_of_notMem hs, bindingsOf]

theorem WellFormed.restore_chain_put {s : ScopeId} (hs : s ∈ f.path e) (name : String)
    (v : Value) : f.restore e ((f.put s name v).chain e) = f.put s name v := by
  apply hf.restore_chain_of_notMem he
  · simp
  · simp
  · intro p hp
    have hne : s ≠ p := by
      rintro rfl
      exact hp hs
    rw [bindingsOf_put name v (hf.lt_next_of_mem_path he hs), if_neg hne]

/-- To bind a name in a scope is to bind it in the chain that is put back. -/
theorem WellFormed.put_eq_restore_bind (name : String) (v : Value) :
    f.put e name v = f.restore e ((f.chain e).bind name v) := by
  have hancestors : e ∉ f.ancestorsOf e := fun h =>
    Nat.lt_irrefl e (hf.lt_of_mem_ancestorsOf h)
  have hchain : (f.put e name v).chain e = (f.chain e).bind name v := by
    simp [chain, Chain.bind, map_bindingsOf_put name v he hancestors, bindingsOf_put name v he]
  rw [← hchain]
  exact (hf.restore_chain_put he List.mem_cons_self name v).symm

end Change

/-! ## Forests that come about -/

theorem ancestorsOf_push (f : Forest) (scope : Scope) (s : ScopeId) :
    (Forest.mk (f.scopes.push scope)).ancestorsOf s =
      if s = f.next then scope.ancestors else f.ancestorsOf s := by
  unfold ancestorsOf next
  rw [Array.getElem?_push]
  by_cases hs : s = f.scopes.size
  · simp only [hs, if_true]
  · simp only [hs, if_false]

/-- A new scope may lie in nothing, or in an existing scope and what it lies in. -/
theorem WellFormed.push {f : Forest} (hf : f.WellFormed) {scope : Scope}
    (hscope : scope.ancestors = [] ∨ ∃ p < f.next, scope.ancestors = f.path p) :
    (Forest.mk (f.scopes.push scope)).WellFormed := by
  have hpath : ∀ p < f.next, (Forest.mk (f.scopes.push scope)).path p = f.path p := by
    intro p hp
    unfold path
    rw [ancestorsOf_push, if_neg (Nat.ne_of_lt hp)]
  intro s
  rw [ancestorsOf_push]
  split
  next hs =>
    rcases hscope with hroot | ⟨p, hp, hancestors⟩
    · exact Or.inl hroot
    · exact Or.inr ⟨p, hs ▸ hp, hancestors.trans (hpath p hp).symm⟩
  next hs =>
    rcases hf s with hroot | ⟨p, hp, hancestors⟩
    · exact Or.inl hroot
    · have hne : f.ancestorsOf s ≠ [] := by
        rw [hancestors]
        exact List.cons_ne_nil _ _
      have hlt : s < f.next := by
        by_contra hge
        exact hne (ancestorsOf_eq_nil_of_next_le (Nat.le_of_not_lt hge))
      exact Or.inr ⟨p, hp, hancestors.trans (hpath p (Nat.lt_trans hp hlt)).symm⟩

theorem eq_put_of_define {f g : Forest} {e : ScopeId} {name : String} {v : Value}
    (h : f.define e name v = .ok g) : g = f.put e name v := by
  unfold define at h
  split at h
  · cases h
  · exact (Except.ok.inj h).symm

theorem eq_put_of_set {f g : Forest} {e : ScopeId} {name : String} {v : Value}
    (h : f.set e name v = .ok g) : ∃ s, g = f.put s name v := by
  unfold set at h
  split at h
  next s _ => exact ⟨s, (Except.ok.inj h).symm⟩
  next => cases h

/-- The forests that come about by making scopes, by binding, defining and setting
names, and by evaluation, in any order. -/
inductive Reachable : Forest → Prop
  | empty : Reachable .empty
  | addRoot {f : Forest} (bindings : Bindings) : Reachable f → Reachable (f.addRoot bindings)
  | addChild {f g : Forest} {e : ScopeId} :
      Reachable f → e < f.next → f.addChild e = .ok g → Reachable g
  | bind {f : Forest} (e : ScopeId) (name : String) (v : Value) :
      Reachable f → Reachable (f.bind e name v)
  | define {f g : Forest} {e : ScopeId} {name : String} {v : Value} :
      Reachable f → f.define e name v = .ok g → Reachable g
  | set {f g : Forest} {e : ScopeId} {name : String} {v : Value} :
      Reachable f → f.set e name v = .ok g → Reachable g
  | call {f : Forest} (e : ScopeId) (fuel : Nat) (g : Function) (args : List Value)
      (console : Console) : Reachable f →
      Reachable (f.restore e ((MiniLisp.call fuel g args).after ⟨f.chain e, console⟩).chain)
  | run {f : Forest} (e : ScopeId) (fuel : Nat) (p : Program) (console : Console) :
      Reachable f →
      Reachable (f.restore e ((p.run fuel).after ⟨f.chain e, console⟩).chain)

/-- All that happens to a forest is that scopes are added and that chains are put back. -/
theorem Reachable.invariant {P : Forest → Prop} (hempty : P .empty)
    (hroot : ∀ {f : Forest} (bindings : Bindings), P f → P (f.addRoot bindings))
    (hchild : ∀ {f g : Forest} {e : ScopeId}, P f → e < f.next → f.addChild e = .ok g → P g)
    (hrestore : ∀ {f : Forest} (e : ScopeId) (c : Chain), P f → P (f.restore e c))
    {f : Forest} (h : f.Reachable) : P f := by
  have hput : ∀ {f : Forest} (s : ScopeId) (name : String) (v : Value), P f →
      P (f.put s name v) := by
    intro f s name v hf
    rw [put_eq_restore]
    exact hrestore s _ hf
  induction h with
  | empty => exact hempty
  | addRoot bindings _ ih => exact hroot bindings ih
  | addChild _ he hadd ih => exact hchild ih he hadd
  | bind e name v _ ih => exact hput e name v ih
  | @define f _ e name v _ hdefine ih =>
      rw [eq_put_of_define hdefine]
      exact hput e name v ih
  | @set f _ e name v _ hset ih =>
      obtain ⟨s, rfl⟩ := eq_put_of_set hset
      exact hput s name v ih
  | call e fuel g args console _ ih => exact hrestore e _ ih
  | run e fuel p console _ ih => exact hrestore e _ ih

theorem Reachable.wellFormed {f : Forest} (h : f.Reachable) : f.WellFormed := by
  apply h.invariant
  · exact fun _ => Or.inl rfl
  · exact fun bindings hf => hf.push (Or.inl rfl)
  · intro f g e hf he hadd
    unfold Forest.addChild at hadd
    split at hadd
    · cases hadd
      exact hf.push (Or.inr ⟨_, he, rfl⟩)
    · cases hadd
  · exact fun e c hf => hf.restore e c

end Forest
end MiniLisp
