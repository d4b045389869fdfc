import MiniLisp.Proofs.Scope.Alias
import MiniLisp.Session.Basic
import Std.Data.String.ToNat

/-!
# Chains of names of any length

A session can bind any number of numbered names so that each leads to the one before.  As
numbers are written in different ways, none of these bindings is in the way of another.
-/

namespace MiniLisp
namespace Session

variable (stem : String) (n : Nat) (v : Value) (fresh : Identity) (c : Chain)

theorem aliases_succ :
    aliases stem (n + 1) v fresh c =
      (aliases stem n v fresh c).bind (stem ++ toString (n + 1))
        (.function (.deferred (fresh + n) (stem ++ toString n))) := by
  simp [aliases, List.range_succ]

theorem outer_aliases : (aliases stem n v fresh c).outer = c.outer := by
  induction n with
  | zero => rfl
  | succ n ih => rw [aliases_succ, ← ih]; rfl

theorem append_toString_inj {m n : Nat} : stem ++ toString m = stem ++ toString n ↔ m = n := by
  rw [String.append_right_inj]
  exact ⟨Nat.repr_injective, congrArg toString⟩

theorem get?_aliases_zero :
    (aliases stem n v fresh c).get? (stem ++ toString 0) = some v := by
  induction n with
  | zero => simp [aliases, Chain.get?_bind]
  | succ n ih =>
      simp only [aliases_succ, Chain.get?_bind, append_toString_inj]
      rw [if_neg (by omega), ih]

theorem get?_aliases {k : Nat} (hk : k < n) :
    (aliases stem n v fresh c).get? (stem ++ toString (k + 1)) =
      some (.function (.deferred (fresh + k) (stem ++ toString k))) := by
  induction n with
  | zero => omega
  | succ n ih =>
      simp only [aliases_succ, Chain.get?_bind, append_toString_inj]
      by_cases heq : n = k
      · subst heq
        simp
      · rw [if_neg (by omega), ih (by omega)]

theorem leads_aliases {k : Nat} (hk : k ≤ n) :
    (aliases stem n v fresh c).Leads k (stem ++ toString k) (stem ++ toString 0) := by
  induction k with
  | zero => exact .here _
  | succ k ih =>
      have hname := get?_aliases stem n v fresh c hk
      exact .hop (Chain.alias?_eq_some.mpr ⟨_, hname⟩) (ih (by omega))

/-- An interpreter with one scope, in which so many names lead to a number. -/
def withAliases (n : Nat) : Interpreter :=
  { Interpreter.new .standard with
    forest := Forest.empty.addRoot (aliases "a" n (.int 7) 0 (.root ∅)).inner }

theorem chain_withAliases (n : Nat) :
    (withAliases n).forest.chain 0 = aliases "a" n (.int 7) 0 (.root ∅) := by
  have houter := outer_aliases "a" n (.int 7) 0 (.root ∅)
  generalize haliases : aliases "a" n (.int 7) 0 (.root ∅) = c at houter
  unfold withAliases
  rw [haliases]
  obtain ⟨inner, outer⟩ := c
  cases houter
  rfl

theorem leads_withAliases (n : Nat) :
    ((withAliases n).forest.chain 0).Leads n ("a" ++ toString n) "a0" := by
  rw [chain_withAliases]
  exact leads_aliases "a" n (.int 7) 0 (.root ∅) (Nat.le_refl n)

theorem get?_withAliases (n : Nat) :
    ((withAliases n).forest.chain 0).get? "a0" = some (.int 7) := by
  rw [chain_withAliases]
  exact get?_aliases_zero "a" n (.int 7) 0 (.root ∅)

theorem alias?_withAliases (n : Nat) : ((withAliases n).forest.chain 0).alias? "a0" = none := by
  rw [Chain.alias?, get?_withAliases]

theorem follow_withAliases (n : Nat) :
    ((withAliases n).forest.chain 0).follow 1 "a0" = .data (.int 7) := by
  rw [Chain.follow, get?_withAliases]

end Session
end MiniLisp
