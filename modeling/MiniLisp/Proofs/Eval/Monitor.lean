import MiniLisp.Program
import MiniLisp.Proofs.Eval.Simulation

/-!
# Watched evaluation

A monitor looks at every call when it begins and again when it has succeeded, and
where it finds something wrong it raises an alarm.  If a watched run goes like the run
itself, whatever the alarm does, then no alarm is ever raised: what the monitor looks
for holds of every call on the way, also in a run that fails later or that runs out of
fuel.

For code that obeys a discipline this follows from an invariant of the chain.
-/

namespace MiniLisp

structure Monitor where
  /-- Look at the arguments of a call, and at the chain that it begins in. -/
  begins : Function → List Value → Chain → Bool
  /-- Look at the value of a call, and at the chain that it leaves. -/
  ends : Function → Value → Chain → Bool

namespace Monitor

/-- Look at the chain, and raise the alarm unless it is fine. -/
def inspect (alarm : EvalM Unit) (isFine : Chain → Bool) : EvalM Unit := do
  if isFine (← EvalM.chain) then return () else alarm

/-- Call a function, and watch this call and all the calls on the way. -/
def call (m : Monitor) (alarm : EvalM Unit) : Nat → Caller
  | 0 => fun f args => do
      inspect alarm (m.begins f args)
      MiniLisp.call 0 f args
  | fuel + 1 => fun f args => do
      inspect alarm (m.begins f args)
      let v ← Eval.function (m.call alarm fuel) f args
      inspect alarm (m.ends f v)
      return v

def runFrom (m : Monitor) (alarm : EvalM Unit) (fuel index : Nat) (last : Value) :
    Program → EvalM Value
  | [] => pure last
  | f :: fs => do
      EvalM.tell (.evaluating index)
      let v ← m.call alarm fuel f []
      m.runFrom alarm fuel (index + 1) v fs

/-- Run a program, and watch all the calls on the way. -/
def run (m : Monitor) (alarm : EvalM Unit) (fuel : Nat) (p : Program) : EvalM Value :=
  m.runFrom alarm fuel 0 .null p

variable {m : Monitor} {alarm : EvalM Unit} {fuel : Nat} {f : Function} {args : List Value}
  {run : Run}

theorem inspect_bind_apply {isFine : Chain → Bool} (h : isFine run.chain = true)
    (next : EvalM α) : (inspect alarm isFine >>= fun _ => next) run = next run := by
  change EStateM.bind (if isFine run.chain then pure () else alarm) (fun _ => next) run = _
  rw [if_pos h]
  rfl

theorem call_zero_apply (hbegins : m.begins f args run.chain = true) :
    m.call alarm 0 f args run = MiniLisp.call 0 f args run :=
  inspect_bind_apply hbegins _

/-- A call in which the monitor finds nothing wrong goes on to the calls inside it. -/
theorem call_succ_apply (hbegins : m.begins f args run.chain = true)
    (hends : ∀ v after, Eval.function (m.call alarm fuel) f args run = .ok v after →
      m.ends f v after.chain = true) :
    m.call alarm (fuel + 1) f args run = Eval.function (m.call alarm fuel) f args run := by
  apply (inspect_bind_apply hbegins _).trans
  change EStateM.bind (Eval.function (m.call alarm fuel) f args)
    (fun v => inspect alarm (m.ends f v) >>= fun _ => pure v) run = _
  unfold EStateM.bind
  cases hcall : Eval.function (m.call alarm fuel) f args run with
  | error stop after => rfl
  | ok v after => exact inspect_bind_apply (hends v after hcall) (pure v)

/-- A call that is wrong from the start is not made, if the alarm ends the run. -/
theorem call_succ_of_alarm {stop : Stop} (hbegins : m.begins f args run.chain = false) :
    m.call (throw stop) (fuel + 1) f args run = .error stop run := by
  change EStateM.bind (if m.begins f args run.chain then pure () else throw stop) _ run = _
  rw [hbegins]
  rfl

end Monitor

/-! ## Invariants of the chain -/

/-- A property of chains that code under a discipline keeps.  The number counts the
scopes that have been entered. -/
structure Invariant (D : Discipline) where
  holds : Nat → Chain → Prop
  bound : ∀ {n c name v}, holds n c → c.get? name = some v → D.code v
  define : ∀ {n c d id target name v}, holds n c → D.callable (.thunk id (.define target v)) →
    c.define name v = .ok d → holds n d
  set : ∀ {n c d name v}, holds n c → D.result v → c.set name v = .ok d → holds n d
  push : ∀ {n c} {bindings : Bindings}, holds n c → c.hasRoom = true → bindings.All D.arg →
    holds (n + 1) (c.push bindings)
  pop : ∀ {n c}, holds (n + 1) c → holds n c.pop

namespace Invariant

variable {D : Discipline} (I : Invariant D)

theorem changed {n : Nat} {r : Run} {result : Except EvalError Chain}
    (hresult : ∀ c, result = .ok c → I.holds n c) :
    Run.Changed (fun r s => r = s ∧ I.holds n r.chain) r r result result := by
  cases result with
  | ok c => exact .ok ⟨rfl, hresult c rfl⟩
  | error e => exact .error e

/-- A run beside itself. -/
def simulation : Simulation D where
  related n r s := r = s ∧ I.holds n r.chain
  excused _ := False
  get? h _ := by rw [h.1]
  bound h hname := I.bound h.2 hname
  hasRoom h := .inl (by rw [h.1])
  write h f := ⟨by rw [h.1], h.2⟩
  define := by
    rintro n r _ id target v ⟨rfl, hr⟩ hf name
    exact I.changed fun c hc => I.define hr hf hc
  set := by
    rintro n r _ v ⟨rfl, hr⟩ hv name
    exact I.changed fun c hc => I.set hr hv hc
  push h hroom hbindings := ⟨by rw [h.1], I.push h.2 hroom hbindings⟩
  pop h := ⟨by rw [h.1], I.pop h.2⟩

variable {I}

/-- Computations that go side by side in one state do the same, and keep the invariant. -/
theorem eq_of_simulates {n : Nat} {Q : α → Prop} {m k : EvalM α}
    (h : I.simulation.Simulates n Q m k) {run : Run} (hrun : I.holds n run.chain) :
    k run = m run ∧ I.holds n (m.after run).chain := by
  have hend := h run run ⟨rfl, hrun⟩
  unfold EvalM.after
  generalize m run = x at hend
  generalize k run = y at hend
  cases hend with
  | ok _ hafter => exact ⟨by rw [hafter.1], hafter.2⟩
  | error stop hafter => exact ⟨by rw [hafter.1], hafter.2⟩
  | excused hstop => exact hstop.elim

/-- Wherever the invariant holds, and the discipline is obeyed, the monitor finds
nothing wrong. -/
structure Satisfies (I : Invariant D) (m : Monitor) : Prop where
  begins : ∀ {n c f args}, I.holds n c → D.callable f → (∀ v ∈ args, D.arg v) →
    m.begins f args c = true
  ends : ∀ {n} {call : Caller} {f args before v after}, I.holds n after.chain → D.callable f →
    D.Answer f v → Eval.function call f args before = .ok v after →
    m.ends f v after.chain = true

namespace Satisfies

variable {m : Monitor} (h : I.Satisfies m) (alarm : EvalM Unit)
include h

theorem callers (fuel : Nat) : I.simulation.Callers (call fuel) (m.call alarm fuel) := by
  -- By induction the calls inside are as good as unwatched, so that the outcome on which
  -- the monitor looks in the end is that of the call itself.
  induction fuel with
  | zero =>
      rintro n f args hf hargs r _ ⟨rfl, hr⟩
      rw [Monitor.call_zero_apply (h.begins hr hf hargs)]
      exact .error _ ⟨rfl, hr⟩
  | succ fuel ih =>
      rintro n f args hf hargs r _ ⟨rfl, hr⟩
      have hend := ih.function n f args hf hargs r r ⟨rfl, hr⟩
      rw [Monitor.call_succ_apply (h.begins hr hf hargs)]
      · exact hend
      · intro v after hcall
        rw [hcall] at hend
        generalize Eval.function (MiniLisp.call fuel) f args r = x at hend
        cases hend with
        | ok hv hafter =>
            obtain ⟨rfl, hholds⟩ := hafter
            exact h.ends hholds hf hv hcall
        | excused hstop => exact hstop.elim

theorem runFrom (fuel index n : Nat) (last : Value) {p : Program}
    (hp : ∀ f ∈ p, D.callable f) :
    I.simulation.Simulates n (fun _ => True) (p.runFrom fuel index last)
      (m.runFrom alarm fuel index last p) := by
  induction p generalizing index last with
  | nil => exact .pure trivial
  | cons f p ih =>
      rw [List.forall_mem_cons] at hp
      apply Simulation.Simulates.bind (.write (·.tell _))
      intro _ _
      apply Simulation.Simulates.bind (h.callers alarm fuel n f [] hp.1 fun _ hv => nomatch hv)
      intro v _
      exact ih (index + 1) v hp.2

end Satisfies
end Invariant
end MiniLisp
