import MiniLisp.Proofs.Eval.Monitor
import MiniLisp.Proofs.Expr.Spelling

/-!
# Operators without a meaning

Only the call of an operator without a meaning fails over it, and so an operator that no
such call is made for is never reported.  Code that is compiled from a text makes such
calls for subtraction and division, and for nothing else: no run turns the code that it
was given and the code that it finds into code with other operators.
-/

namespace MiniLisp

/-! ## What is never reported -/

namespace EvalM

/-- The operator is not reported. -/
def Spares (op : Char) (m : EvalM α) : Prop :=
  ∀ run after, m run ≠ .error (.failed (.unsupportedOperator op)) after

variable {op : Char}

theorem Spares.bind {m : EvalM α} {next : α → EvalM β} (hm : m.Spares op)
    (hnext : ∀ v, (next v).Spares op) : (m >>= next).Spares op := by
  intro run after h
  change EStateM.bind m next run = _ at h
  unfold EStateM.bind at h
  cases hrun : m run with
  | ok v middle =>
      rw [hrun] at h
      exact hnext v middle after h
  | error stop middle =>
      rw [hrun] at h
      cases h
      exact hm run after hrun

theorem Spares.fail {e : EvalError} (he : e ≠ .unsupportedOperator op) :
    (EvalM.fail e : EvalM α).Spares op := by
  rintro run after ⟨⟩
  exact he rfl

theorem Spares.update {f : Chain → Except EvalError Chain} (hf : ∀ c, Ordinary (f c)) :
    (EvalM.update f).Spares op := by
  intro run after h
  unfold EvalM.update at h
  split at h
  next => cases h
  next e he =>
    cases h
    cases hf run.chain _ he

theorem Spares.inside {m : EvalM α} (bindings : Bindings) (hm : m.Spares op) :
    (EvalM.inside bindings m).Spares op := by
  intro run after h
  unfold EvalM.inside at h
  split at h
  next => cases h
  next stop last hbody =>
    cases h
    exact hm _ last hbody

theorem spares_nearlyClosed (op : Char) : NearlyClosed (Spares op) where
  pure _ _ _ := nofun
  bind := Spares.bind
  fail e he := Spares.fail fun h => by rw [h] at he; cases he
  look hnext _ run after := hnext run.chain run after
  define name v := Spares.update fun c => c.ordinary_define name v
  set name v := Spares.update fun c => c.ordinary_set name v
  print _ _ _ := nofun
  tell _ _ _ := nofun
  inside bindings hm := hm.inside bindings

end EvalM

/-! ## What code can report -/

def Discipline.spelled : Discipline where
  callable f := f.isSpelled = true
  code v := v.isSpelled = true
  arg v := v.isSpelled = true
  result v := v.isSpelled = true
  callable_of_code h := h
  values hf hv := Function.isSpelled_of_mem_parts hf (Function.values_subset_parts _ hv)
  steps hf hg := Function.isSpelled_of_mem_parts hf (Function.steps_subset_parts _ hg)
  arg_of_result h := h
  arg_of_lambda _ h := h
  result_of_code _ h := h
  result_of_atom h := Value.isSpelled_of_isAtom h
  result_list h := Value.allSpelled_iff.mpr h
  result_define h := (Bool.and_eq_true_iff.mp h).2
  result_host h := h
  result_host_args _ h := Value.allSpelled_iff.mpr h

def Invariant.spelled : Invariant .spelled where
  holds _ c := c.All (·.isSpelled = true)
  bound hc hname := hc.get? hname
  define hc hf hdefine := hc.define (Bool.and_eq_true_iff.mp hf).2 hdefine
  set hc hv hset := hc.set hv hset
  push hc _ hbindings := hc.push hbindings
  pop hc := hc.pop

/-- Every function that is called is spelled as in a text. -/
def Monitor.spelled : Monitor where
  begins f _ _ := f.isSpelled
  ends _ _ _ := true

theorem Invariant.spelled_satisfies : Invariant.spelled.Satisfies .spelled where
  begins _ hf _ := hf
  ends _ _ _ _ := rfl

namespace Monitor

variable {op : Char}

theorem spares_inspect {alarm : EvalM Unit} (halarm : alarm.Spares op) (isFine : Chain → Bool) :
    (inspect alarm isFine).Spares op := by
  intro run after h
  change (if isFine run.chain then pure () else alarm) run = _ at h
  split at h
  · cases h
  · exact halarm run after h

/-- With an alarm that ends the run, no operator but two is reported. -/
theorem spares_call (hminus : op ≠ '-') (hslash : op ≠ '/') (fuel : Nat) (f : Function)
    (args : List Value) : (Monitor.spelled.call (throw .outOfFuel) fuel f args).Spares op := by
  have hclosed := EvalM.spares_nearlyClosed op
  have halarm : (throw .outOfFuel : EvalM Unit).Spares op := by
    rintro run after ⟨⟩
  induction fuel generalizing f args with
  | zero =>
      apply hclosed.bind (spares_inspect halarm _)
      rintro _ run after ⟨⟩
  | succ fuel ih =>
      cases hf : f.isSpelled with
      | false =>
          -- The alarm ends the run before the function is called.
          intro run after h
          cases (call_succ_of_alarm hf).symm.trans h
      | true =>
          apply hclosed.bind (spares_inspect halarm _)
          intro _
          apply hclosed.bind
          · apply hclosed.function ih args
            rintro id other rfl
            refine .fail ?_
            rintro ⟨⟩
            simp [Function.isSpelled, Form.isSpelled, hminus, hslash] at hf
          · intro v
            exact hclosed.bind (spares_inspect halarm _) fun _ => hclosed.pure v

theorem spares_runFrom (hminus : op ≠ '-') (hslash : op ≠ '/') (fuel index : Nat)
    (last : Value) (p : Program) :
    (Monitor.spelled.runFrom (throw .outOfFuel) fuel index last p).Spares op := by
  have hclosed := EvalM.spares_nearlyClosed op
  induction p generalizing index last with
  | nil => exact hclosed.pure last
  | cons f p ih =>
      apply hclosed.bind (hclosed.tell _)
      intro _
      apply hclosed.bind (spares_call hminus hslash fuel f [])
      exact fun v => ih (index + 1) v

end Monitor

/-- A run of code that is spelled as in a text reports no operators but two, and what it
leaves bound is code of this kind again. -/
theorem Program.run_spelled {p : Program} (hp : ∀ f ∈ p, f.isSpelled = true) {start : Run}
    (hstart : start.chain.All (·.isSpelled = true)) (fuel : Nat) :
    (∀ op after, p.run fuel start = .error (.failed (.unsupportedOperator op)) after →
      op = '-' ∨ op = '/') ∧ ((p.run fuel).after start).chain.All (·.isSpelled = true) := by
  -- The run goes as it does under a monitor that stops at any other operator.
  obtain ⟨hwatched, hafter⟩ := Invariant.eq_of_simulates (n := 0)
    (Invariant.spelled_satisfies.runFrom (throw .outOfFuel) fuel 0 0 .null hp) hstart
  refine ⟨?_, hafter⟩
  intro op after hrun
  by_contra hop
  obtain ⟨hminus, hslash⟩ := not_or.mp hop
  exact Monitor.spares_runFrom hminus hslash fuel 0 .null p start after (hwatched.trans hrun)

end MiniLisp
