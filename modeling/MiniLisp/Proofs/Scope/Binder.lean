import MiniLisp.Proofs.Scope.Depth
import MiniLisp.Proofs.Scope.Overwrite

/-!
# The scope that binds a name

A scope answers for a name with the value in the nearest scope on its path that binds the
name.  Defining and setting a name both come down to one binding in one scope.  Every
scope that finds the name there sees the new value, and nothing else has changed for
anyone.  The scope that the name is defined in or set from could as well have done this to
its chain and put it back.
-/

namespace MiniLisp

namespace Forest

theorem get?_eq_findSome? (f : Forest) (e : ScopeId) (name : String) :
    f.get? e name = (f.path e).findSome? fun s => (f.bindingsOf s)[name]? := by
  unfold get? Chain.get?
  rw [scopes_chain, List.findSome?_map]
  rfl

private theorem findSome?_eq_find?_bind (f : Forest) (name : String) (path : List ScopeId) :
    (path.findSome? fun s => (f.bindingsOf s)[name]?) =
      (path.find? fun s => (f.bindingsOf s).contains name).bind
        fun s => (f.bindingsOf s)[name]? := by
  induction path with
  | nil => rfl
  | cons s path ih =>
      rw [List.findSome?_cons, List.find?_cons, Std.TreeMap.contains_eq_isSome_getElem?]
      cases hname : (f.bindingsOf s)[name]? with
      | none => simpa using ih
      | some w => simp [hname]

theorem get?_eq_bind_binder? (f : Forest) (e : ScopeId) (name : String) :
    f.get? e name = (f.binder? e name).bind fun s => (f.bindingsOf s)[name]? := by
  rw [get?_eq_findSome?, findSome?_eq_find?_bind]
  rfl

theorem mem_of_binder? {f : Forest} {e s : ScopeId} {name : String}
    (h : f.binder? e name = some s) : s ∈ f.path e ∧ name ∈ f.bindingsOf s := by
  refine ⟨List.mem_of_find?_eq_some h, ?_⟩
  have hname := List.find?_some h
  exact Std.TreeMap.mem_iff_contains.mpr hname

theorem get?_eq_none_iff {f : Forest} {e : ScopeId} {name : String} :
    f.get? e name = none ↔ f.binder? e name = none := by
  rw [get?_eq_bind_binder?]
  cases hbinder : f.binder? e name with
  | none => simp
  | some s =>
      have hname := (mem_of_binder? hbinder).2
      simpa using hname

/-! ## What scopes see of one binding -/

section Put

variable {f : Forest} {s : ScopeId} (name : String) (v : Value) (hs : s < f.next)
include hs

theorem getElem?_bindingsOf_put (p : ScopeId) (m : String) :
    ((f.put s name v).bindingsOf p)[m]? =
      if s = p ∧ name = m then some v else (f.bindingsOf p)[m]? := by
  rw [bindingsOf_put name v hs]
  by_cases heq : s = p
  · subst heq
    by_cases hm : name = m <;> simp [hm, Std.TreeMap.getElem?_insert]
  · simp [heq]

theorem contains_bindingsOf_put (p : ScopeId) :
    ((f.put s name v).bindingsOf p).contains name =
      (decide (s = p) || (f.bindingsOf p).contains name) := by
  rw [bindingsOf_put name v hs]
  by_cases heq : s = p
  · simp [heq]
  · simp [heq]

theorem get?_put_of_ne {m : String} (hm : m ≠ name) (p : ScopeId) :
    (f.put s name v).get? p m = f.get? p m := by
  rw [get?_eq_findSome?, get?_eq_findSome?, path_put]
  congr 1
  funext q
  rw [getElem?_bindingsOf_put name v hs, if_neg fun h => hm h.2.symm]

/-- A scope that finds the name where it was put sees the new value, and every other scope
what it saw before. -/
theorem get?_put_self (p : ScopeId) :
    (f.put s name v).get? p name =
      if (f.put s name v).binder? p name = some s then some v else f.get? p name := by
  rw [get?_eq_findSome?, get?_eq_findSome?, binder?, path_put]
  generalize f.path p = path
  induction path with
  | nil => rfl
  | cons q path ih =>
      rw [List.findSome?_cons, List.findSome?_cons, List.find?_cons,
        getElem?_bindingsOf_put name v hs, contains_bindingsOf_put name v hs,
        Std.TreeMap.contains_eq_isSome_getElem?]
      by_cases heq : s = q
      · simp [heq]
      · have hne : q ≠ s := fun h => heq h.symm
        cases hname : (f.bindingsOf q)[name]? with
        | none => simpa [heq] using ih
        | some w => simp [heq, hne]

theorem get?_put (p : ScopeId) (m : String) :
    (f.put s name v).get? p m =
      if m = name ∧ (f.put s name v).binder? p name = some s then some v else f.get? p m := by
  by_cases hm : m = name
  · subst hm
    simp [get?_put_self m v hs]
  · simp [get?_put_of_ne name v hs hm, hm]

/-- A name that a scope binds already is found where it was found before. -/
theorem binder?_put_of_mem (hname : name ∈ f.bindingsOf s) (p : ScopeId) :
    (f.put s name v).binder? p name = f.binder? p name := by
  unfold binder?
  rw [path_put]
  congr 1
  funext q
  rw [contains_bindingsOf_put name v hs]
  by_cases heq : s = q
  · subst heq
    simpa using hname
  · simp [heq]

end Put

/-! ## Defining and setting -/

theorem define_eq_ok {f g : Forest} {e : ScopeId} {name : String} {v : Value} :
    f.define e name v = .ok g ↔ name ∉ f.bindingsOf e ∧ f.put e name v = g := by
  rw [Std.TreeMap.mem_iff_contains]
  unfold define
  cases (f.bindingsOf e).contains name with
  | true => simp
  | false => simp

theorem set_eq_ok {f g : Forest} {e : ScopeId} {name : String} {v : Value} :
    f.set e name v = .ok g ↔ ∃ s, f.binder? e name = some s ∧ f.put s name v = g := by
  unfold set
  cases f.binder? e name with
  | some s => simp
  | none => simp

section Change

variable {f : Forest} (hf : f.WellFormed) {e : ScopeId} (he : e < f.next)
include hf he

/-- A name is overwritten in the nearest scope that binds it. -/
theorem WellFormed.overwrite_chain (name : String) (v : Value) :
    Bindings.overwrite name v (f.chain e).scopes =
      (f.binder? e name).map fun s => ((f.put s name v).chain e).scopes := by
  have hlt : ∀ s ∈ f.path e, s < f.next := fun s hs => hf.lt_next_of_mem_path he hs
  have hnodup := hf.nodup_path e
  simp only [scopes_chain, path_put, binder?]
  generalize f.path e = path at hlt hnodup
  induction path with
  | nil => rfl
  | cons p path ih =>
      obtain ⟨hp, hnodup⟩ := List.nodup_cons.mp hnodup
      obtain ⟨hplt, hlt⟩ := List.forall_mem_cons.mp hlt
      simp only [List.map_cons, Bindings.overwrite, List.find?_cons]
      by_cases hname : (f.bindingsOf p).contains name
      · simp [hname, map_bindingsOf_put name v hplt hp, bindingsOf_put name v hplt]
      · simp only [hname, Bool.false_eq_true, if_false, ih hlt hnodup, Option.map_map]
        cases hfound : path.find? fun s => (f.bindingsOf s).contains name with
        | none => rfl
        | some s =>
            have hs : s ∈ path := List.mem_of_find?_eq_some hfound
            have hne : s ≠ p := by
              rintro rfl
              exact hp hs
            simp [bindingsOf_put name v (hlt s hs), hne]

theorem WellFormed.chain_set {s : ScopeId} {name : String} (hs : f.binder? e name = some s)
    (v : Value) : (f.chain e).set name v = .ok ((f.put s name v).chain e) := by
  have hover := hf.overwrite_chain he name v
  rw [hs] at hover
  obtain ⟨d, hset, hscopes⟩ := Chain.set_of_overwrite hover
  rw [hset, Chain.eq_of_scopes hscopes]

/-- To define a name in a scope is to define it in the chain that is put back. -/
theorem WellFormed.define_eq_restore (name : String) (v : Value) :
    f.define e name v = f.restore e <$> (f.chain e).define name v := by
  unfold define Chain.define
  change (if (f.chain e).containsLocal name then _ else _) = _
  cases (f.chain e).containsLocal name with
  | true => rfl
  | false => exact congrArg Except.ok (hf.put_eq_restore_bind he name v)

/-- To set a name in a scope is to set it in the chain that is put back. -/
theorem WellFormed.set_eq_restore (name : String) (v : Value) :
    f.set e name v = f.restore e <$> (f.chain e).set name v := by
  unfold set
  cases hbinder : f.binder? e name with
  | some s =>
      rw [hf.chain_set he hbinder]
      exact congrArg Except.ok (hf.restore_chain_put he (mem_of_binder? hbinder).1 name v).symm
  | none =>
      have hover := hf.overwrite_chain he name v
      rw [hbinder] at hover
      rw [Chain.set_of_overwrite_eq_none hover]
      rfl

end Change
end Forest
end MiniLisp
