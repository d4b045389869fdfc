import MiniLisp.Proofs.Eval.Termination
import MiniLisp.Proofs.Interpreter.Footprint
import MiniLisp.Proofs.Scope.Depth

/-!
# One run after the other

A run in a scope puts back the chain that it ends with.  The next run in that scope finds
just this chain, so that two runs in sequence may be taken apart: the second one starts
from the interpreter that the first one has left.
-/

namespace MiniLisp
namespace Interpreter

@[simp] theorem next_within (i : Interpreter) (e : ScopeId) (m : EvalM α) :
    (i.within e m).2.forest.next = i.forest.next := by
  rw [forest_within, Forest.next_restore]

theorem wellFormed_within {i : Interpreter} (hi : i.forest.WellFormed) (e : ScopeId)
    (m : EvalM α) : (i.within e m).2.forest.WellFormed := by
  rw [forest_within]
  exact hi.restore e _

section Within

variable {i : Interpreter} (hi : i.forest.WellFormed) {e : ScopeId} (he : e < i.forest.next)
  {m : EvalM α}
include hi he

theorem within_of_ok {v : α}
    (h : m ⟨i.forest.chain e, i.console⟩ = .ok v ⟨i.forest.chain e, i.console⟩) :
    i.within e m = (.ok v, i) := by
  unfold within
  rw [h]
  simp only [hi.restore_chain he]

theorem within_of_error {stop : Stop}
    (h : m ⟨i.forest.chain e, i.console⟩ = .error stop ⟨i.forest.chain e, i.console⟩) :
    i.within e m = (.error stop, i) := by
  unfold within
  rw [h]
  simp only [hi.restore_chain he]

theorem chain_within (hm : m.Framed) :
    (i.within e m).2.forest.chain e = (m.after ⟨i.forest.chain e, i.console⟩).chain := by
  rw [forest_within]
  apply hi.chain_restore he
  rw [(hm _).depth_eq, Forest.depth_chain]

end Within

theorem within_bind_of_error {i j : Interpreter} {e : ScopeId} {m : EvalM α} {stop : Stop}
    (h : i.within e m = (.error stop, j)) (next : α → EvalM β) :
    i.within e (m >>= next) = (.error stop, j) := by
  unfold within at h ⊢
  cases hm : m ⟨i.forest.chain e, i.console⟩ with
  | error stop' last =>
      rw [hm] at h
      rw [EvalM.bind_error hm]
      simpa using h
  | ok v last =>
      rw [hm] at h
      cases h

theorem within_bind_of_ok {i j : Interpreter} (hi : i.forest.WellFormed) {e : ScopeId}
    (he : e < i.forest.next) {m : EvalM α} {next : α → EvalM β} {v : α} (hm : m.Framed)
    (hnext : (next v).Framed) (h : i.within e m = (.ok v, j)) :
    i.within e (m >>= next) = j.within e (next v) := by
  have hchain := chain_within hi he hm
  have hdepth := (hm ⟨i.forest.chain e, i.console⟩).depth_eq
  rw [h] at hchain
  rw [Forest.depth_chain] at hdepth
  unfold EvalM.after at hchain hdepth
  unfold within at h ⊢
  cases hfirst : m ⟨i.forest.chain e, i.console⟩ with
  | error stop last =>
      rw [hfirst] at h
      cases h
  | ok w last =>
      rw [hfirst] at h hchain hdepth
      cases h
      have hend := (hnext last).depth_eq.trans hdepth
      unfold EvalM.after at hend
      rw [EvalM.bind_ok hfirst, hchain]
      cases hsecond : next v last <;>
        simp only [hsecond] at hend ⊢ <;>
        rw [hi.restore_restore he hend]

end Interpreter
end MiniLisp
