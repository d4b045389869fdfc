import MiniLisp.Eval.Arithmetic
import MiniLisp.Eval.Native

/-!
# What operators and built-in functions give

An operator and a built-in function give a number, a string, a truth value or null.
Only a sum of one operand is that operand, whatever it is.  If they fail, it is over
their operands and arguments, and never over an operator that has no meaning.
-/

namespace MiniLisp

/-- Numbers, strings, truth values and null. -/
def Value.isAtom : Value → Bool
  | .list _ | .function _ => false
  | _ => true

theorem Value.isFunction_of_isAtom {v : Value} (h : v.isAtom = true) :
    v.isFunction = false := by
  cases v with
  | function f => cases h
  | _ => rfl

namespace Operator

theorem isAtom_apply {op : Operator} {a b v : Value} (h : op.apply a b = .ok v) :
    v.isAtom = true := by
  unfold Operator.apply at h
  split at h
  · dsimp only at h
    split at h
    · cases h
      rfl
    · cases h
  · cases h
    rfl
  · cases h
    rfl
  · cases h
    rfl
  · cases h

theorem foldlM_isAtom_or_eq {op : Operator} {vs : List Value} {first v : Value}
    (h : vs.foldlM op.apply first = .ok v) : v.isAtom = true ∨ v = first := by
  induction vs generalizing first with
  | nil =>
      cases h
      exact .inr rfl
  | cons w vs ih =>
      rw [List.foldlM_cons] at h
      cases happly : op.apply first w with
      | ok u =>
          rw [happly] at h
          rcases ih h with hatom | rfl
          · exact .inl hatom
          · exact .inl (isAtom_apply happly)
      | error e =>
          rw [happly] at h
          cases h

theorem combine_isAtom_or_mem {op : Operator} {vs : List Value} {v : Value}
    (h : op.combine vs = .ok v) : v.isAtom = true ∨ v ∈ vs := by
  unfold Operator.combine at h
  split at h
  · cases h
    exact .inl rfl
  · cases h
    exact .inl rfl
  · unfold Operator.fold at h
    split at h
    · cases h
      exact .inl rfl
    · rcases foldlM_isAtom_or_eq h with hatom | rfl
      · exact .inl hatom
      · exact .inr List.mem_cons_self

end Operator

namespace Native

theorem isAtom_ofLength {n : Nat} {w : Value} (h : ofLength n = .ok w) : w.isAtom = true := by
  unfold ofLength at h
  split at h
  · cases h
    rfl
  · cases h

theorem isAtom_count {v w : Value} (h : count v = .ok w) : w.isAtom = true := by
  unfold count at h
  split at h
  · exact isAtom_ofLength h
  · exact isAtom_ofLength h
  · cases h

/-- A built-in function prints a line, or it judges its arguments. -/
theorem call_cases (p : Native) (args : List Value) :
    (∃ line, p.call args = EvalM.print line >>= fun _ => pure .null) ∨
      ∃ result, p.call args = EvalM.ofExcept result ∧ ∀ v, result = .ok v → v.isAtom = true := by
  cases p with
  | print => exact .inl ⟨_, rfl⟩
  | length =>
      refine .inr ⟨_, rfl, ?_⟩
      intro v hv
      cases hsingle : single .length args with
      | ok w =>
          rw [hsingle] at hv
          exact isAtom_count hv
      | error e =>
          rw [hsingle] at hv
          cases hv
  | not =>
      refine .inr ⟨_, rfl, ?_⟩
      intro v hv
      cases hsingle : single .not args with
      | ok w =>
          rw [hsingle] at hv
          cases hv
          rfl
      | error e =>
          rw [hsingle] at hv
          cases hv

end Native

/-! ## Errors -/

/-- The error of an operator that has no meaning. -/
def EvalError.isUnsupported : EvalError → Bool
  | .unsupportedOperator _ => true
  | _ => false

/-- Nothing is wrong with an operator. -/
def Ordinary (result : Except EvalError α) : Prop :=
  ∀ e, result = .error e → e.isUnsupported = false

namespace Ordinary

theorem ok (v : α) : Ordinary (.ok v) :=
  nofun

theorem error {e : EvalError} (h : e.isUnsupported = false) :
    Ordinary (.error e : Except EvalError α) := by
  rintro _ ⟨⟩
  exact h

theorem bind {x : Except EvalError α} {next : α → Except EvalError β} (hx : Ordinary x)
    (hnext : ∀ v, Ordinary (next v)) : Ordinary (x >>= next) := by
  cases x with
  | ok v => exact hnext v
  | error e => exact error (hx e rfl)

end Ordinary

namespace Operator

theorem ordinary_apply (op : Operator) (a b : Value) : Ordinary (op.apply a b) := by
  unfold Operator.apply
  split
  · dsimp only
    split
    · exact .ok _
    · exact .error rfl
  · exact .ok _
  · exact .ok _
  · exact .ok _
  · exact .error rfl

theorem ordinary_foldlM (op : Operator) (vs : List Value) (first : Value) :
    Ordinary (vs.foldlM op.apply first) := by
  induction vs generalizing first with
  | nil => exact .ok first
  | cons v vs ih =>
      rw [List.foldlM_cons]
      exact .bind (op.ordinary_apply first v) ih

theorem ordinary_combine (op : Operator) (vs : List Value) : Ordinary (op.combine vs) := by
  unfold Operator.combine
  split
  · exact .ok _
  · exact .ok _
  · unfold Operator.fold
    split
    · exact .ok _
    · exact op.ordinary_foldlM _ _

end Operator

namespace Native

theorem ordinary_single (p : Native) (args : List Value) : Ordinary (p.single args) := by
  unfold single
  split
  · exact .ok _
  · exact .error rfl

theorem ordinary_ofLength (n : Nat) : Ordinary (ofLength n) := by
  unfold ofLength
  split
  · exact .ok _
  · exact .error rfl

theorem ordinary_count (v : Value) : Ordinary (count v) := by
  unfold count
  split
  · exact ordinary_ofLength _
  · exact ordinary_ofLength _
  · exact .error rfl

end Native

namespace Chain

theorem ordinary_lookup (c : Chain) (name : String) : Ordinary (c.lookup name) := by
  unfold Chain.lookup
  split
  · exact .ok _
  · exact .error rfl

theorem ordinary_define (c : Chain) (name : String) (v : Value) : Ordinary (c.define name v) := by
  unfold Chain.define
  split
  · exact .error rfl
  · exact .ok _

theorem ordinary_set (c : Chain) (name : String) (v : Value) : Ordinary (c.set name v) := by
  unfold Chain.set
  split
  · exact .ok _
  · split
    · exact .ok _
    · exact .error rfl

end Chain

end MiniLisp
