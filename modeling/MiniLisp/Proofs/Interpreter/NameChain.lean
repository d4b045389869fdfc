import MiniLisp.Proofs.Interpreter.NameCall
import MiniLisp.Proofs.Scope.Cycle

/-!
# Calling what a chain of names leads to

A name is followed to the first name that is not bound to a name.  What happens then is up to
the binding of that last name alone: the arguments and the scope are handed on, and the names
on the way leave no trace.  A chain that is too long fails before anything has happened.
-/

namespace MiniLisp

namespace Interpreter

/-- A call of a name follows the names to the first that is not bound to a name.  If this is
among as many names as may be looked up, then it is reported if it is unbound, its value is
the result if that is data, and its function is called with the arguments in the same state.
If there is no such name, the call fails and changes nothing; where fewer names are bound than
may be looked up, this is the case exactly if the chain of names goes round. -/
theorem name_chain_followed (i : Interpreter) (hi : i.forest.Reachable) (e : ScopeId)
    (he : e < i.forest.next) (x : String) (args : List Value) (id : Identity) (fuel : Nat) :
    let c := i.forest.chain e
    let outcome := i.within e (call (fuel + 1) (.deferred id x) args)
    (∀ k y, k < maxDepth → c.Leads k x y → c.alias? y = none →
      (c.get? y = none → outcome = (.error (.failed (.notBound y)), i)) ∧
        (∀ v, c.get? y = some v → v.isFunction = false → outcome = (.ok v, i)) ∧
        ∀ f, c.get? y = some (.function f) → outcome = i.within e (call fuel f args)) ∧
      (c.follow maxDepth x = .tooLong ↔
        ∀ k y, k < maxDepth → c.Leads k x y → c.alias? y ≠ none) ∧
      (c.follow maxDepth x = .tooLong → outcome = (.error (.failed .stackOverflow), i)) ∧
      (c.visible.card < maxDepth → (c.follow maxDepth x = .tooLong ↔ c.Cyclic x)) := by
  intro c outcome
  have hcall : call (fuel + 1) (.deferred id x) args ⟨c, i.console⟩ =
      Eval.reach (call fuel) (c.follow maxDepth x) args ⟨c, i.console⟩ :=
    Eval.deferred_eq_reach args
  refine ⟨?_, Chain.follow_eq_tooLong_iff, ?_,
    fun hcard => Chain.follow_eq_tooLong_iff_cyclic hcard⟩
  · intro k y hk hy hend
    rw [hy.follow_of_end hend hk] at hcall
    refine ⟨fun hget => ?_, fun v hget hv => ?_, fun f hget => ?_⟩
    · rw [Chain.follow_of_unbound hget] at hcall
      exact within_of_error hi.wellFormed he hcall
    · rw [Chain.follow_of_data hget hv] at hcall
      exact within_of_ok hi.wellFormed he hcall
    · rw [Chain.follow_of_function hend hget] at hcall
      exact within_congr hcall
  · intro htooLong
    rw [htooLong] at hcall
    exact within_of_error hi.wellFormed he hcall

/-- Two names that lead to each other, and one that leads to a name without a binding. -/
theorem name_chain_followed_round :
    let name (id : Identity) (x : String) : Value := .function (.deferred id x)
    let scope : Bindings :=
      ((∅ : Bindings).insert "a" (name 0 "b")).insert "b" (name 1 "a") |>.insert "c" (name 2 "d")
    let i : Interpreter := { new .standard with forest := Forest.empty.addRoot scope }
    let c := i.forest.chain 0
    i.forest.Reachable ∧ c.visible.card < maxDepth ∧ c.Cyclic "a" ∧
      (∀ fuel args, i.within 0 (call (fuel + 1) (.deferred 3 "a") args) =
        (.error (.failed .stackOverflow), i)) ∧
      ∀ fuel args, i.within 0 (call (fuel + 1) (.deferred 3 "c") args) =
        (.error (.failed (.notBound "d")), i) := by
  intro name scope i c
  have hi : i.forest.Reachable := .addRoot _ .empty
  have hcard : c.visible.card < maxDepth := by
    have hle := c.card_visible_le
    have hsize : (c.scopes.map (·.size)).sum = 3 := by decide
    have hlimit : 3 < maxDepth := by decide
    omega
  have ha : c.alias? "a" = some "b" := by decide
  have hb : c.alias? "b" = some "a" := by decide
  have hc : c.alias? "c" = some "d" := by decide
  have hd : c.get? "d" = none := rfl
  have hcyclic : c.Cyclic "a" :=
    ⟨0, 2, "a", by decide, .here "a", .hop ha (.hop hb (.here "a"))⟩
  refine ⟨hi, hcard, hcyclic, fun fuel args => ?_, fun fuel args => ?_⟩
  · obtain ⟨-, -, hlong, hround⟩ := name_chain_followed i hi 0 Nat.zero_lt_one "a" args 3 fuel
    exact hlong ((hround hcard).mpr hcyclic)
  · obtain ⟨hends, -⟩ := name_chain_followed i hi 0 Nat.zero_lt_one "c" args 3 fuel
    have hend : c.alias? "d" = none := by rw [Chain.alias?, hd]
    exact (hends 1 "d" (by decide) (.hop hc (.here "d")) hend).1 hd

end Interpreter
end MiniLisp
