import MiniLisp.Interpreter
import MiniLisp.Proofs.Eval.InPlace

/-!
# Calls in the forest of an interpreter

An interpreter runs a call on the chain of a scope and puts the chain back.  Made in the
forest itself, the call ends in the same way and leaves the same in every scope that was there
before.  What it adds are the scopes of the lambdas that it has called.
-/

namespace MiniLisp
namespace Interpreter

theorem forest_within (i : Interpreter) (e : ScopeId) (m : EvalM α) :
    (i.within e m).2.forest =
      i.forest.restore e (m.after ⟨i.forest.chain e, i.console⟩).chain := by
  unfold within EvalM.after
  cases m ⟨i.forest.chain e, i.console⟩ <;> rfl

/-- A run in a scope of the forest, `x`, has ended as `y` has, which worked on the chain of
that scope. -/
structure EndsInPlace (i : Interpreter) (e : ScopeId) (x y : Except Stop α × Interpreter) :
    Prop where
  outcome : x.1 = y.1
  console : x.2.console = y.2.console
  wellFormed : x.2.forest.WellFormed
  grown : i.forest.Grown e x.2.forest
  scopes : ∀ s < i.forest.next, x.2.forest.scopes[s]? = y.2.forest.scopes[s]?

theorem endsInPlace {i : Interpreter} (hi : i.forest.WellFormed) {e : ScopeId}
    (he : e < i.forest.next) {k : ForestM α} {m : EvalM α} (hkm : k.Enacts m) :
    i.EndsInPlace e (i.inPlace e k) (i.within e m) := by
  have hend := hkm e ⟨i.forest, i.console⟩ hi he
  unfold inPlace within
  rw [World.seenFrom] at hend
  generalize k e ⟨i.forest, i.console⟩ = x at hend
  dsimp only at hend ⊢
  generalize m ⟨i.forest.chain e, i.console⟩ = y at hend
  cases hend with
  | ok v hw hgrown => exact ⟨rfl, rfl, hw, hgrown, fun s => hgrown.getElem?_eq_restore hi he⟩
  | error stop hw hgrown =>
      exact ⟨rfl, rfl, hw, hgrown, fun s => hgrown.getElem?_eq_restore hi he⟩

end Interpreter
end MiniLisp
