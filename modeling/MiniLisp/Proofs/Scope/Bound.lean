import MiniLisp.Proofs.Scope.Forest

/-!
# Properties of bound values

Names are bound by defining them, by overwriting them, and as parameters.  If each
of these only ever binds values of some kind, then all that a scope, a chain or a
forest binds is of that kind, and so is whatever a name leads to.
-/

namespace MiniLisp

def Bindings.All (P : Value → Prop) (scope : Bindings) : Prop :=
  ∀ (name : String) (v : Value), scope[name]? = some v → P v

namespace Bindings.All

variable {P : Value → Prop}

theorem empty : Bindings.All P ∅ := by
  intro name v h
  simp at h

theorem insert {scope : Bindings} (hscope : scope.All P) (name : String) {v : Value}
    (hv : P v) : Bindings.All P (scope.insert name v) := by
  intro other w h
  rw [Std.TreeMap.getElem?_insert] at h
  split at h
  · cases h
    exact hv
  · exact hscope other w h

private theorem foldl_insert {pairs : List (String × Value)} {scope : Bindings}
    (hscope : scope.All P) (hpairs : ∀ pair ∈ pairs, P pair.2) :
    Bindings.All P (pairs.foldl (fun scope (name, v) => scope.insert name v) scope) := by
  induction pairs generalizing scope with
  | nil => exact hscope
  | cons pair pairs ih =>
      apply ih
      · exact hscope.insert pair.1 (hpairs pair List.mem_cons_self)
      · exact fun other hother => hpairs other (List.mem_cons_of_mem pair hother)

theorem ofParams (params : List String) {args : List Value} (hargs : ∀ v ∈ args, P v) :
    (Bindings.ofParams params args).All P := by
  apply foldl_insert (P := P) empty
  intro pair hpair
  exact hargs pair.2 (List.of_mem_zip hpair).2

end Bindings.All

/-- The standard environment binds three constants and the built-in functions. -/
theorem Bindings.all_standard {P : Value → Prop} (htrue : P (.bool true))
    (hfalse : P (.bool false)) (hnull : P .null)
    (hnative : ∀ p : Native, P (.function (.native p))) : Bindings.All P .standard :=
  ((((((Bindings.All.empty.insert _ htrue).insert _ hfalse).insert _ hnull).insert _
    (hnative .print)).insert _ (hnative .length)).insert _ (hnative .not))

/-! ## Chains -/

def Chain.All (P : Value → Prop) (c : Chain) : Prop :=
  ∀ scope ∈ c.scopes, scope.All P

namespace Chain.All

variable {P : Value → Prop} {c : Chain} (hc : c.All P)
include hc

theorem get? {name : String} {v : Value} (h : c.get? name = some v) : P v := by
  obtain ⟨scope, hscope, hv⟩ := List.exists_of_findSome?_eq_some h
  exact hc scope hscope name v hv

theorem bind (name : String) {v : Value} (hv : P v) : (c.bind name v).All P := by
  intro scope hscope
  rcases List.mem_cons.mp hscope with rfl | hscope
  · exact (hc c.inner List.mem_cons_self).insert name hv
  · exact hc scope (List.mem_cons_of_mem c.inner hscope)

theorem define {d : Chain} {name : String} {v : Value} (hv : P v)
    (h : c.define name v = .ok d) : d.All P := by
  unfold Chain.define at h
  split at h
  · cases h
  · cases h
    exact hc.bind name hv

omit hc in
private theorem modify {scopes : List Bindings} (hscopes : ∀ scope ∈ scopes, scope.All P)
    (i : Nat) (name : String) {v : Value} (hv : P v) :
    ∀ scope ∈ scopes.modify i (·.insert name v), scope.All P := by
  intro scope hscope
  obtain ⟨j, hj⟩ := List.mem_iff_getElem?.mp hscope
  rw [List.getElem?_modify] at hj
  obtain ⟨old, hold, rfl⟩ := Option.map_eq_some_iff.mp hj
  have hall := hscopes old (List.mem_of_getElem? hold)
  split
  · exact hall.insert name hv
  · exact hall

theorem set {d : Chain} {name : String} {v : Value} (hv : P v)
    (h : c.set name v = .ok d) : d.All P := by
  unfold Chain.set at h
  split at h
  · cases h
    exact hc.bind name hv
  · split at h
    next i _ =>
      cases h
      intro scope hscope
      rcases List.mem_cons.mp hscope with rfl | hscope
      · exact hc c.inner List.mem_cons_self
      · exact modify (fun s hs => hc s (List.mem_cons_of_mem c.inner hs)) i name hv scope hscope
    next => cases h

theorem push {bindings : Bindings} (hbindings : bindings.All P) :
    (c.push bindings).All P := by
  intro scope hscope
  rcases List.mem_cons.mp hscope with rfl | hscope
  · exact hbindings
  · exact hc scope hscope

theorem pop : c.pop.All P := by
  unfold Chain.pop
  split
  · exact hc
  next scope rest houter =>
    intro s hs
    apply hc s
    unfold Chain.scopes
    rw [houter]
    exact List.mem_cons_of_mem c.inner hs

end Chain.All

/-! ## What names lead to -/

theorem Chain.follow_data {c : Chain} {hops : Nat} {name : String} {v : Value}
    (h : c.follow hops name = .data v) :
    v.isFunction = false ∧ ∃ last, c.get? last = some v := by
  induction hops generalizing name with
  | zero => cases h
  | succ hops ih =>
      unfold Chain.follow at h
      split at h
      · cases h
      · exact ih h
      · cases h
      next hnot hname =>
        cases h
        refine ⟨?_, name, hname⟩
        cases v with
        | function f => exact absurd rfl (hnot f)
        | _ => rfl

theorem Chain.follow_function {c : Chain} {hops : Nat} {name : String} {f : Function}
    (h : c.follow hops name = .function f) :
    (∀ id next, f ≠ .deferred id next) ∧ ∃ last, c.get? last = some (.function f) := by
  induction hops generalizing name with
  | zero => cases h
  | succ hops ih =>
      unfold Chain.follow at h
      split at h
      · cases h
      · exact ih h
      next found hnot hname =>
        cases h
        refine ⟨?_, name, hname⟩
        rintro id next rfl
        exact hnot id next rfl
      next => cases h

/-- What is passed on uncalled is a lambda: the function itself, or one that a name
is bound to. -/
theorem Chain.passed?_eq_some {c : Chain} {f g : Function} (h : c.passed? f = some g) :
    g.isLambda = true ∧ (g = f ∨ ∃ name, c.get? name = some (.function g)) := by
  have hself : ∀ f : Function, (if f.isLambda then some f else none) = some g →
      g.isLambda = true ∧ g = f := by
    intro f h
    obtain ⟨hlambda, hsome⟩ := Option.ite_none_right_eq_some.mp h
    cases hsome
    exact ⟨hlambda, rfl⟩
  cases f with
  | deferred id name =>
      simp only [Chain.passed?] at h
      split at h
      next found hname =>
        obtain ⟨hlambda, rfl⟩ := hself found h
        exact ⟨hlambda, .inr ⟨name, hname⟩⟩
      next => cases h
  | _ =>
      simp only [Chain.passed?] at h
      obtain ⟨hlambda, heq⟩ := hself _ h
      exact ⟨hlambda, .inl heq⟩

/-! ## Forests -/

def Forest.All (P : Value → Prop) (f : Forest) : Prop :=
  ∀ s, (f.bindingsOf s).All P

namespace Forest.All

variable {P : Value → Prop}

theorem empty : Forest.All P .empty :=
  fun _ => Bindings.All.empty

theorem addRoot {f : Forest} (hf : f.All P) {bindings : Bindings}
    (hbindings : bindings.All P) : (f.addRoot bindings).All P := by
  intro s
  have hs := hf s
  unfold Forest.bindingsOf at hs ⊢
  unfold Forest.addRoot
  rw [Array.getElem?_push]
  by_cases heq : s = f.scopes.size
  · simpa only [heq, if_true] using hbindings
  · simpa only [heq, if_false] using hs

theorem chain {f : Forest} (hf : f.All P) (e : ScopeId) : (f.chain e).All P := by
  intro scope hscope
  rw [Forest.scopes_chain] at hscope
  obtain ⟨s, _, rfl⟩ := List.mem_map.mp hscope
  exact hf s

theorem write {f : Forest} (hf : f.All P) (e : ScopeId) {bindings : Bindings}
    (hbindings : bindings.All P) : (f.write e bindings).All P := by
  intro s
  unfold Forest.bindingsOf
  rw [Forest.getElem?_write]
  have hs := hf s
  unfold Forest.bindingsOf at hs
  by_cases heq : e = s
  · cases hscope : f.scopes[s]? with
    | none => simpa [heq] using Bindings.All.empty
    | some scope => simpa [heq] using hbindings
  · simpa [heq] using hs

theorem restore {f : Forest} (hf : f.All P) (e : ScopeId) {c : Chain} (hc : c.All P) :
    (f.restore e c).All P := by
  have hpairs : ∀ pair ∈ (f.path e).zip c.scopes, pair.2.All P :=
    fun pair hpair => hc pair.2 (List.of_mem_zip hpair).2
  rw [Forest.restore_eq_writeAll]
  generalize (f.path e).zip c.scopes = pairs at hpairs
  induction pairs generalizing f with
  | nil => exact hf
  | cons pair pairs ih =>
      exact ih (hf.write pair.1 (hpairs pair List.mem_cons_self))
        (fun other hother => hpairs other (List.mem_cons_of_mem pair hother))

end Forest.All
end MiniLisp
