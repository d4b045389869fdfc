import MiniLisp.Scope.Chain

/-!
# Overwriting a name

A name is overwritten in the innermost scope that binds it, which is also the scope
that its value is looked up in: afterwards it has the new value.
-/

namespace MiniLisp

/-- Overwrite the binding of a name in the first scope that has one. -/
def Bindings.overwrite (name : String) (v : Value) : List Bindings → Option (List Bindings)
  | [] => none
  | scope :: rest =>
      if scope.contains name then some (scope.insert name v :: rest)
      else (Bindings.overwrite name v rest).map (scope :: ·)

theorem Bindings.overwrite_eq_modify (name : String) (v : Value) (scopes : List Bindings) :
    Bindings.overwrite name v scopes =
      (scopes.findIdx? (·.contains name)).map fun i => scopes.modify i (·.insert name v) := by
  induction scopes with
  | nil => rfl
  | cons scope rest ih =>
      unfold Bindings.overwrite
      rw [List.findIdx?_cons, ih]
      by_cases hname : scope.contains name = true
      · simp [hname]
      · simp only [hname, Bool.false_eq_true, if_false, Option.map_map]
        rfl

/-- Setting a name in a chain overwrites it in the first of its scopes that has it. -/
theorem Chain.set_of_overwrite {c : Chain} {name : String} {v : Value} {scopes : List Bindings}
    (h : Bindings.overwrite name v c.scopes = some scopes) :
    ∃ d : Chain, c.set name v = .ok d ∧ d.scopes = scopes := by
  unfold Chain.scopes Bindings.overwrite at h
  unfold Chain.set Chain.containsLocal
  by_cases hname : c.inner.contains name = true
  · simp only [hname, if_true] at h ⊢
    cases h
    exact ⟨_, rfl, rfl⟩
  · simp only [hname, Bool.false_eq_true, if_false, Bindings.overwrite_eq_modify] at h ⊢
    cases hfound : c.outer.findIdx? (·.contains name) with
    | none => simp [hfound] at h
    | some i =>
        rw [hfound] at h
        cases h
        exact ⟨_, rfl, rfl⟩

theorem Chain.set_of_overwrite_eq_none {c : Chain} {name : String} {v : Value}
    (h : Bindings.overwrite name v c.scopes = none) :
    c.set name v = .error (.notDefined name) := by
  unfold Chain.scopes Bindings.overwrite at h
  unfold Chain.set Chain.containsLocal
  by_cases hname : c.inner.contains name = true
  · simp [hname] at h
  · simp only [hname, Bool.false_eq_true, if_false, Bindings.overwrite_eq_modify,
      Option.map_eq_none_iff] at h ⊢
    rw [h]

theorem Bindings.findSome?_overwrite {name : String} {v : Value} {scopes scopes' : List Bindings}
    (h : Bindings.overwrite name v scopes = some scopes') :
    scopes'.findSome? (·[name]?) = some v := by
  induction scopes generalizing scopes' with
  | nil => cases h
  | cons scope rest ih =>
      unfold Bindings.overwrite at h
      split at h
      next =>
        cases h
        simp
      next hname =>
        obtain ⟨rest', hrest, rfl⟩ := Option.map_eq_some_iff.mp h
        have hnone : scope[name]? = none := by
          simpa using hname
        simp [hnone, ih hrest]

theorem Chain.get?_of_set {c d : Chain} {name : String} {v : Value} (h : c.set name v = .ok d) :
    d.get? name = some v := by
  cases hover : Bindings.overwrite name v c.scopes with
  | none =>
      rw [Chain.set_of_overwrite_eq_none hover] at h
      cases h
  | some scopes =>
      obtain ⟨d', hset, rfl⟩ := Chain.set_of_overwrite hover
      cases hset.symm.trans h
      exact Bindings.findSome?_overwrite hover

end MiniLisp
