import MiniLisp.Program
import MiniLisp.Proofs.Eval.Frame

/-!
# Runs of programs

What a program does is made of what its expressions do, so that a program of two
parts runs them one after the other.  The second part is told about with other
indices than by itself, but nothing that a run tells has an influence on it: runs
that start with the same chain and the same output go the same way, whatever was
told before.
-/

namespace MiniLisp

theorem EvalM.Closed.runFrom {P : ∀ {α : Type}, EvalM α → Prop} (hP : Closed P)
    (fuel index : Nat) (last : Value) (p : Program) : P (p.runFrom fuel index last) := by
  induction p generalizing index last with
  | nil => exact hP.pure last
  | cons f p ih =>
      apply hP.bind (hP.tell _)
      intro _
      apply hP.bind (hP.call fuel f [])
      intro v
      exact ih (index + 1) v

theorem Program.depth_run (fuel : Nat) (p : Program) (run : Run) :
    ((p.run fuel).after run).chain.depth = run.chain.depth :=
  (EvalM.framed_closed.runFrom fuel 0 .null p run).depth_eq

/-! ## What is told has no influence -/

namespace Run

/-- The same state with nothing told. -/
def mute (run : Run) : Run :=
  { run with console := ⟨run.console.output, #[]⟩ }

theorem mute_eq_iff {r s : Run} :
    r.mute = s.mute ↔ r.chain = s.chain ∧ r.console.output = s.console.output := by
  simp [mute]

theorem mute_mute (run : Run) : run.mute.mute = run.mute := rfl

/-- The state when something has been told. -/
def told (run : Run) (e : Event) : Run :=
  { run with console := run.console.tell e }

/-- The end of a run with nothing told. -/
def muteEnd : EStateM.Result Stop Run α → EStateM.Result Stop Run α
  | .ok v run => .ok v run.mute
  | .error stop run => .error stop run.mute

end Run

namespace EvalM

/-- Apart from what they tell, the computations do the same. -/
def EqualMuted (m n : EvalM α) : Prop :=
  ∀ r s : Run, r.mute = s.mute → Run.muteEnd (m r) = Run.muteEnd (n s)

theorem EqualMuted.bind {m n : EvalM α} {next next' : α → EvalM β} (hm : m.EqualMuted n)
    (hnext : ∀ v, (next v).EqualMuted (next' v)) : (m >>= next).EqualMuted (n >>= next') := by
  intro r s hmute
  have hfirst := hm r s hmute
  change Run.muteEnd (EStateM.bind m next r) = Run.muteEnd (EStateM.bind n next' s)
  unfold EStateM.bind
  cases hr : m r <;> cases hs : n s <;>
    simp only [hr, hs, Run.muteEnd, EStateM.Result.ok.injEq, EStateM.Result.error.injEq,
      reduceCtorEq] at hfirst
  case ok.ok v r' v' s' =>
    obtain ⟨rfl, hmute'⟩ := hfirst
    exact hnext v r' s' hmute'
  case error.error stop r' stop' s' =>
    obtain ⟨rfl, hmute'⟩ := hfirst
    simp only [Run.muteEnd, hmute']

theorem EqualMuted.look {next : Chain → EvalM α} (hnext : ∀ c, (next c).EqualMuted (next c)) :
    (EvalM.chain >>= next).EqualMuted (EvalM.chain >>= next) := by
  intro r s hmute
  change Run.muteEnd (next r.chain r) = Run.muteEnd (next s.chain s)
  rw [(Run.mute_eq_iff.mp hmute).1]
  exact hnext s.chain r s hmute

theorem EqualMuted.update (f : Chain → Except EvalError Chain) :
    (EvalM.update f).EqualMuted (EvalM.update f) := by
  intro r s hmute
  obtain ⟨hchain, houtput⟩ := Run.mute_eq_iff.mp hmute
  unfold EvalM.update
  rw [hchain]
  cases f s.chain with
  | ok c => simp [Run.muteEnd, Run.mute, houtput]
  | error e => simp [Run.muteEnd, hmute]

theorem EqualMuted.inside {m : EvalM α} (bindings : Bindings) (hm : m.EqualMuted m) :
    (EvalM.inside bindings m).EqualMuted (EvalM.inside bindings m) := by
  intro r s hmute
  obtain ⟨hchain, houtput⟩ := Run.mute_eq_iff.mp hmute
  have hbody := hm { r with chain := r.chain.push bindings }
    { s with chain := s.chain.push bindings } (Run.mute_eq_iff.mpr ⟨by rw [hchain], houtput⟩)
  unfold EvalM.inside
  cases hr : m { r with chain := r.chain.push bindings } <;>
    cases hs : m { s with chain := s.chain.push bindings } <;>
    simp only [hr, hs, Run.muteEnd, EStateM.Result.ok.injEq, EStateM.Result.error.injEq,
      reduceCtorEq, Run.mute_eq_iff] at hbody
  case ok.ok =>
    obtain ⟨rfl, hchain', houtput'⟩ := hbody
    simp [Run.muteEnd, Run.mute, hchain', houtput']
  case error.error =>
    obtain ⟨rfl, hchain', houtput'⟩ := hbody
    simp [Run.muteEnd, Run.mute, hchain', houtput']

theorem equalMuted_tell (e e' : Event) : (EvalM.tell e).EqualMuted (EvalM.tell e') := by
  intro r s hmute
  exact congrArg (EStateM.Result.ok PUnit.unit) hmute

theorem equalMuted_closed : Closed fun m => m.EqualMuted m where
  pure v _ _ hmute := congrArg (EStateM.Result.ok v) hmute
  bind := EqualMuted.bind
  stop stop _ _ hmute := congrArg (EStateM.Result.error stop) hmute
  look hnext _ := .look hnext
  define name v := .update _
  set name v := .update _
  print line r s hmute := by
    obtain ⟨hchain, houtput⟩ := Run.mute_eq_iff.mp hmute
    change EStateM.Result.ok _ _ = EStateM.Result.ok _ _
    simp [Run.mute, Console.print, hchain, houtput]
  tell event := equalMuted_tell event event
  inside := EqualMuted.inside

end EvalM

namespace Program

/-- The indices that are told make no difference. -/
theorem runFrom_equalMuted (fuel index index' : Nat) (last : Value) (p : Program) :
    (p.runFrom fuel index last).EqualMuted (p.runFrom fuel index' last) := by
  induction p generalizing index index' last with
  | nil => exact EvalM.equalMuted_closed.pure last
  | cons f p ih =>
      apply EvalM.EqualMuted.bind (EvalM.equalMuted_tell _ _)
      intro _
      apply EvalM.EqualMuted.bind (EvalM.equalMuted_closed.call fuel f [])
      intro v
      exact ih (index + 1) (index' + 1) v

theorem runFrom_append (fuel index : Nat) (last : Value) (p q : Program) :
    (p ++ q).runFrom fuel index last =
      p.runFrom fuel index last >>= fun v => q.runFrom fuel (index + p.length) v := by
  induction p generalizing index last with
  | nil => rfl
  | cons f p ih =>
      have hindex : index + (f :: p).length = index + 1 + p.length := by
        simp only [List.length_cons]
        omega
      simp only [List.cons_append, runFrom, ih, bind_assoc, hindex]

theorem run_append_of_error {fuel : Nat} {p : Program} {r r' : Run} {stop : Stop}
    (hp : p.run fuel r = .error stop r') (q : Program) :
    run fuel (p ++ q) r = .error stop r' := by
  unfold run at hp ⊢
  rw [runFrom_append]
  change EStateM.bind _ _ r = _
  unfold EStateM.bind
  rw [hp]

/-- The second part of a program goes on from where the first has come to, with the
result so far. -/
theorem run_append_of_ok {fuel : Nat} {p : Program} {r r' : Run} {v : Value}
    (hp : p.run fuel r = .ok v r') (q : Program) :
    Run.muteEnd (run fuel (p ++ q) r) = Run.muteEnd (q.runFrom fuel 0 v r'.mute) := by
  unfold run at hp ⊢
  rw [runFrom_append]
  change Run.muteEnd (EStateM.bind _ _ r) = _
  unfold EStateM.bind
  rw [hp]
  exact runFrom_equalMuted fuel _ 0 v q r' r'.mute r'.mute_mute.symm

/-! ## The first error -/

section FirstError

variable {fuel index : Nat} {last v : Value} {p done : Program} {f : Function}
  {r middle after : Run} {stop : Stop}

theorem runFrom_cons_apply (fuel index : Nat) (last : Value) (f : Function) (p : Program)
    (r : Run) :
    runFrom fuel index last (f :: p) r =
      match call fuel f [] (r.told (.evaluating index)) with
      | .ok v r' => p.runFrom fuel (index + 1) v r'
      | .error stop r' => .error stop r' := by
  change EStateM.bind (call fuel f []) (fun v => p.runFrom fuel (index + 1) v)
    (r.told (.evaluating index)) = _
  unfold EStateM.bind
  cases call fuel f [] (r.told (.evaluating index)) <;> rfl

/-- A run that fails has run the expressions up to the one that failed. -/
theorem exists_of_runFrom_error (h : p.runFrom fuel index last r = .error stop after) :
    ∃ (done : Program) (failing : Function) (rest : Program) (v : Value) (middle : Run),
      p = done ++ failing :: rest ∧ done.runFrom fuel index last r = .ok v middle ∧
        call fuel failing [] (middle.told (.evaluating (index + done.length))) =
          .error stop after := by
  induction p generalizing index last r with
  | nil => cases h
  | cons f p ih =>
      rw [runFrom_cons_apply] at h
      cases hcall : call fuel f [] (r.told (.evaluating index)) with
      | error stop' r' =>
          rw [hcall] at h
          cases h
          exact ⟨[], f, p, last, r, rfl, rfl, hcall⟩
      | ok v r' =>
          rw [hcall] at h
          obtain ⟨done, failing, rest, w, middle, rfl, hdone, hfailing⟩ := ih h
          refine ⟨f :: done, failing, rest, w, middle, rfl, ?_, ?_⟩
          · rw [runFrom_cons_apply, hcall]
            exact hdone
          · have hindex : index + (f :: done).length = index + 1 + done.length := by
              simp only [List.length_cons]
              omega
            rw [hindex]
            exact hfailing

/-- What stands behind the expression that fails makes no difference. -/
theorem runFrom_append_cons_of_error (hdone : done.runFrom fuel index last r = .ok v middle)
    (hf : call fuel f [] (middle.told (.evaluating (index + done.length))) = .error stop after)
    (rest : Program) : runFrom fuel index last (done ++ f :: rest) r = .error stop after := by
  rw [runFrom_append]
  change EStateM.bind _ _ r = _
  unfold EStateM.bind
  rw [hdone]
  change runFrom fuel (index + done.length) v (f :: rest) middle = _
  rw [runFrom_cons_apply, hf]

end FirstError

section ResultSoFar

variable {fuel : Nat} {p : Program} {r r' : Run}

/-- Only a program without expressions gives the result so far. -/
theorem runFrom_of_ok {v : Value} (hp : p.run fuel r = .ok v r') (last : Value) :
    p.runFrom fuel 0 last r = .ok (if p.isEmpty then last else v) r' := by
  cases p with
  | nil =>
      cases hp
      rfl
  | cons f p => exact hp

theorem runFrom_of_error {stop : Stop} (hp : p.run fuel r = .error stop r') (last : Value) :
    p.runFrom fuel 0 last r = .error stop r' := by
  cases p with
  | nil => cases hp
  | cons f p => exact hp

end ResultSoFar

end Program
end MiniLisp
