import MiniLisp.Proofs.Expr.Tame
import MiniLisp.Proofs.Scope.Bound

/-!
# Scopes without thunks

Where only tame code has run, no name is bound to an expression that is evaluated
again at each reading.  Binding, defining and setting keep this as long as the value
may be stored, and whatever is found under a name may be stored again.
-/

namespace MiniLisp

def Bindings.Storable (scope : Bindings) : Prop :=
  ∀ (name : String) (v : Value), scope[name]? = some v → v.Storable

theorem Bindings.Storable.ofParams (params : List String) {args : List Value}
    (hargs : ∀ v ∈ args, v.Storable) : (Bindings.ofParams params args).Storable :=
  Bindings.All.ofParams params hargs

def Chain.Storable (c : Chain) : Prop :=
  ∀ scope ∈ c.scopes, scope.Storable

namespace Chain.Storable

variable {c : Chain} (hc : c.Storable)
include hc

theorem get? {name : String} {v : Value} (h : c.get? name = some v) : v.Storable :=
  Chain.All.get? hc h

theorem define {d : Chain} {name : String} {v : Value} (hv : v.Storable)
    (h : c.define name v = .ok d) : d.Storable :=
  Chain.All.define hc hv h

theorem set {d : Chain} {name : String} {v : Value} (hv : v.Storable)
    (h : c.set name v = .ok d) : d.Storable :=
  Chain.All.set hc hv h

theorem push {bindings : Bindings} (hbindings : bindings.Storable) :
    (c.push bindings).Storable :=
  Chain.All.push hc hbindings

theorem pop : c.pop.Storable :=
  Chain.All.pop hc

theorem passed? {f g : Function} (hf : (Value.function f).Plain)
    (h : c.passed? f = some g) : (Value.function g).Storable := by
  obtain ⟨hlambda, rfl | ⟨name, hname⟩⟩ := Chain.passed?_eq_some h
  · exact hf.storable_of_isLambda hlambda
  · exact hc.get? hname

theorem follow {hops : Nat} {name : String} {f : Function}
    (h : c.follow hops name = .function f) :
    (Value.function f).Storable ∧ ∀ id next, f ≠ .deferred id next := by
  obtain ⟨hname, last, hlast⟩ := Chain.follow_function h
  exact ⟨hc.get? hlast, hname⟩

end Chain.Storable

/-! ## Forests -/

/-- No scope binds a name to a thunk, or to a lambda that could store one. -/
def Forest.Storable (f : Forest) : Prop :=
  ∀ s, (f.bindingsOf s).Storable

theorem Bindings.storable_standard : Bindings.Storable .standard := by
  apply Bindings.all_standard (P := Value.Storable)
  · exact .data rfl
  · exact .data rfl
  · exact .data rfl
  · exact fun p => ⟨.native p, rfl⟩

theorem Forest.Storable.empty : Forest.empty.Storable :=
  Forest.All.empty

theorem Forest.Storable.addRoot {f : Forest} (hf : f.Storable) {bindings : Bindings}
    (hbindings : bindings.Storable) : (f.addRoot bindings).Storable :=
  Forest.All.addRoot hf hbindings

theorem Forest.Storable.chain {f : Forest} (hf : f.Storable) (e : ScopeId) :
    (f.chain e).Storable :=
  Forest.All.chain hf e

theorem Forest.Storable.restore {f : Forest} (hf : f.Storable) (e : ScopeId) {c : Chain}
    (hc : c.Storable) : (f.restore e c).Storable :=
  Forest.All.restore hf e hc

end MiniLisp
