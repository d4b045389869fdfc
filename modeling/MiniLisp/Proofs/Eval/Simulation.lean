import MiniLisp.Proofs.Eval.Frame
import MiniLisp.Proofs.Eval.Results
import MiniLisp.Proofs.Scope.Bound

/-!
# Two evaluations side by side

Evaluation goes through four kinds of values.  There is code that is called, code
that is forced or bound to a name, there are arguments, and there are results.  A
`Discipline` says which values are allowed in each place, so that evaluation never
leaves them.

A `Simulation` relates the states of two runs that obey a discipline.  If the
primitive operations keep the states related, every call does: the second run goes
where the first has gone, and ends with the same value or the same error.  The two
runs may differ in the way they call the functions inside a function, so that one of
them may do more on the way.  They may also part where the first ends with an error
for which it is excused.
-/

namespace MiniLisp

/-! ## What may stand where -/

/-- The elements that a form forces for their value, or binds. -/
def Form.values : Form → List Value
  | .empty | .unsupported _ => []
  | .arith _ vs | .list vs | .call _ vs => vs
  | .cond test yes no => [test, yes, no]
  | .define _ v | .set _ v => [v]
  | .begin body => body.getLast?.toList

/-- The elements that a form forces for their effects. -/
def Form.steps : Form → List Value
  | .begin body => body.dropLast
  | _ => []

def Function.values : Function → List Value
  | .thunk _ form => form.values
  | .lambda _ _ body => body.getLast?.toList
  | _ => []

def Function.steps : Function → List Value
  | .thunk _ form => form.steps
  | .lambda _ _ body => body.dropLast
  | _ => []

/-- The elements of a form, apart from a name to bind. -/
def Form.parts : Form → List Value
  | .begin body => body
  | form => form.values

def Function.parts : Function → List Value
  | .thunk _ form => form.parts
  | .lambda _ _ body => body
  | _ => []

theorem Function.values_subset_parts (f : Function) : f.values ⊆ f.parts := by
  have hlast : ∀ {body : List Value}, body.getLast?.toList ⊆ body :=
    fun h => List.mem_of_getLast? (Option.mem_toList.mp h)
  cases f with
  | thunk id form =>
      cases form with
      | begin body => exact hlast
      | _ => exact List.Subset.refl _
  | lambda id params body => exact hlast
  | _ => exact List.Subset.refl _

theorem Function.steps_subset_parts (f : Function) : f.steps ⊆ f.parts := by
  cases f with
  | thunk id form =>
      cases form with
      | begin body => exact List.dropLast_subset body
      | _ => exact List.nil_subset _
  | lambda id params body => exact List.dropLast_subset body
  | _ => exact List.Subset.refl _

structure Discipline where
  /-- What may be called, be it for its effects only. -/
  callable : Function → Prop
  /-- What may be forced for its value, and what a name may be bound to. -/
  code : Value → Prop
  arg : Value → Prop
  result : Value → Prop
  callable_of_code : ∀ {f}, code (.function f) → callable f
  values : ∀ {f v}, callable f → v ∈ f.values → code v
  steps : ∀ {f g}, callable f → .function g ∈ f.steps → callable g
  arg_of_result : ∀ {v}, result v → arg v
  arg_of_lambda : ∀ {f}, f.isLambda = true → code (.function f) → arg (.function f)
  result_of_code : ∀ {v}, v.isFunction = false → code v → result v
  result_of_atom : ∀ {v}, v.isAtom = true → result v
  result_list : ∀ {vs}, (∀ v ∈ vs, result v) → result (.list vs)
  result_define : ∀ {id target v}, code (.function (.thunk id (.define target v))) → result v
  result_host : ∀ {id label params v}, callable (.host id label params (some v)) → result v
  result_host_args : ∀ {id label params args}, callable (.host id label params none) →
    (∀ v ∈ args, arg v) → result (.list args)

namespace Discipline

variable (D : Discipline)

/-- What a call may give.  A function that is called for its effects only may give
anything. -/
def Answer (f : Function) (v : Value) : Prop :=
  D.code (.function f) → D.result v

/-- No value is ruled out. -/
def free : Discipline where
  callable _ := True
  code _ := True
  arg _ := True
  result _ := True
  callable_of_code _ := trivial
  values _ _ := trivial
  steps _ _ := trivial
  arg_of_result _ := trivial
  arg_of_lambda _ _ := trivial
  result_of_code _ _ := trivial
  result_of_atom _ := trivial
  result_list _ := trivial
  result_define _ := trivial
  result_host _ := trivial
  result_host_args _ _ := trivial

theorem result_combine {op : Operator} {vs : List Value} {v : Value}
    (hvs : ∀ w ∈ vs, D.result w) (h : op.combine vs = .ok v) : D.result v := by
  rcases Operator.combine_isAtom_or_mem h with hatom | hmem
  · exact D.result_of_atom hatom
  · exact hvs v hmem

end Discipline

/-! ## Related runs -/

/-- Two attempts at changing the chains of related runs both fail in the same way, or
both succeed and leave the runs related. -/
inductive Run.Changed (R : Run → Run → Prop) (r s : Run) :
    Except EvalError Chain → Except EvalError Chain → Prop
  | ok {c d : Chain} : R { r with chain := c } { s with chain := d } →
      Changed R r s (.ok c) (.ok d)
  | error (e : EvalError) : Changed R r s (.error e) (.error e)

structure Simulation (D : Discipline) where
  /-- The states correspond.  The number counts the scopes that have been entered. -/
  related : Nat → Run → Run → Prop
  excused : Stop → Prop
  get? : ∀ {n r s}, related n r s → ∀ name, r.chain.get? name = s.chain.get? name
  bound : ∀ {n r s name v}, related n r s → r.chain.get? name = some v → D.code v
  hasRoom : ∀ {n r s}, related n r s → r.chain.hasRoom = s.chain.hasRoom ∨
    s.chain.hasRoom = true ∧ excused (.failed .stackOverflow)
  write : ∀ {n r s}, related n r s → ∀ f : Console → Console,
    related n { r with console := f r.console } { s with console := f s.console }
  define : ∀ {n r s id target v}, related n r s →
    D.callable (.thunk id (.define target v)) → ∀ name,
      Run.Changed (related n) r s (r.chain.define name v) (s.chain.define name v)
  set : ∀ {n r s v}, related n r s → D.result v → ∀ name,
    Run.Changed (related n) r s (r.chain.set name v) (s.chain.set name v)
  push : ∀ {n r s} {bindings : Bindings}, related n r s → r.chain.hasRoom = true →
    bindings.All D.arg →
      related (n + 1) { r with chain := r.chain.push bindings }
        { s with chain := s.chain.push bindings }
  pop : ∀ {n r s}, related (n + 1) r s →
    related n { r with chain := r.chain.pop } { s with chain := s.chain.pop }

/-- The second run has ended as the first, with a value of the expected kind, unless
the first is excused. -/
inductive Run.Follows (R : Run → Run → Prop) (excused : Stop → Prop) (Q : α → Prop) :
    EStateM.Result Stop Run α → EStateM.Result Stop Run α → Prop
  | ok {v : α} {r s : Run} : Q v → R r s → Follows R excused Q (.ok v r) (.ok v s)
  | error (stop : Stop) {r s : Run} : R r s →
      Follows R excused Q (.error stop r) (.error stop s)
  | excused {stop : Stop} {r : Run} {result : EStateM.Result Stop Run α} :
      excused stop → Follows R excused Q (.error stop r) result

theorem Run.Follows.mono {R : Run → Run → Prop} {excused : Stop → Prop} {P Q : α → Prop}
    {x y : EStateM.Result Stop Run α} (h : Run.Follows R excused P x y)
    (hPQ : ∀ v, P v → Q v) : Run.Follows R excused Q x y := by
  cases h with
  | ok hv hafter => exact .ok (hPQ _ hv) hafter
  | error stop hafter => exact .error stop hafter
  | excused hstop => exact .excused hstop

namespace Simulation

variable {D : Discipline} (S : Simulation D)

/-- From related states, `k` follows `m`. -/
def Simulates (n : Nat) (Q : α → Prop) (m k : EvalM α) : Prop :=
  ∀ r s, S.related n r s → Run.Follows (S.related n) S.excused Q (m r) (k s)

variable {S} {n : Nat}

theorem counted (S : Simulation D) {r s : Run} (hrelated : S.related n r s)
    (expected got : Nat) : S.related n (r.counted expected got) (s.counted expected got) := by
  unfold Run.counted
  split
  · exact hrelated
  · exact S.write hrelated (·.tell _)

namespace Simulates

theorem mono {P Q : α → Prop} {m k : EvalM α} (hm : S.Simulates n P m k)
    (hPQ : ∀ v, P v → Q v) : S.Simulates n Q m k :=
  fun r s hrelated => (hm r s hrelated).mono hPQ

theorem pure {Q : α → Prop} {v : α} (hv : Q v) :
    S.Simulates n Q (Pure.pure v) (Pure.pure v) :=
  fun _ _ hrelated => .ok hv hrelated

theorem stop {Q : α → Prop} (stop : Stop) :
    S.Simulates n Q (throw stop) (throw stop) :=
  fun _ _ hrelated => .error stop hrelated

theorem fail {Q : α → Prop} (e : EvalError) :
    S.Simulates n Q (EvalM.fail e) (EvalM.fail e) :=
  .stop (.failed e)

theorem ofExcept {Q : α → Prop} {result : Except EvalError α}
    (hresult : ∀ v, result = .ok v → Q v) :
    S.Simulates n Q (EvalM.ofExcept result) (EvalM.ofExcept result) := by
  cases result with
  | ok v => exact .pure (hresult v rfl)
  | error e => exact .fail e

theorem bind {P : α → Prop} {Q : β → Prop} {m k : EvalM α} {next next' : α → EvalM β}
    (hm : S.Simulates n P m k)
    (hnext : ∀ v, P v → S.Simulates n Q (next v) (next' v)) :
    S.Simulates n Q (m >>= next) (k >>= next') := by
  intro r s hrelated
  have hfirst := hm r s hrelated
  change Run.Follows _ _ _ (EStateM.bind m next r) (EStateM.bind k next' s)
  unfold EStateM.bind
  generalize m r = x at hfirst
  generalize k s = y at hfirst
  cases hfirst with
  | ok hv hmiddle => exact hnext _ hv _ _ hmiddle
  | error stop hmiddle => exact .error stop hmiddle
  | excused hstop => exact .excused hstop

theorem look {Q : α → Prop} {next next' : Chain → EvalM α}
    (hnext : ∀ r s, S.related n r s →
      Run.Follows (S.related n) S.excused Q (next r.chain r) (next' s.chain s)) :
    S.Simulates n Q (EvalM.chain >>= next) (EvalM.chain >>= next') :=
  hnext

theorem update {f : Chain → Except EvalError Chain}
    (hf : ∀ r s, S.related n r s →
      Run.Changed (S.related n) r s (f r.chain) (f s.chain)) :
    S.Simulates n (fun _ => True) (EvalM.update f) (EvalM.update f) := by
  intro r s hrelated
  have hchanged := hf r s hrelated
  unfold EvalM.update
  generalize f r.chain = x at hchanged
  generalize f s.chain = y at hchanged
  cases hchanged with
  | ok hafter => exact .ok trivial hafter
  | error e => exact .error _ hrelated

theorem write (f : Console → Console) :
    S.Simulates n (fun _ => True)
      (modify fun run : Run => { run with console := f run.console })
      (modify fun run : Run => { run with console := f run.console }) :=
  fun _ _ hrelated => .ok trivial (S.write hrelated f)

/-- What happens in a new scope keeps the runs related once the scope is left. -/
theorem inside {Q : α → Prop} {m k : EvalM α} {bindings : Bindings}
    (hbindings : bindings.All D.arg) (hm : S.Simulates (n + 1) Q m k) {r s : Run}
    (hrelated : S.related n r s) (hroom : r.chain.hasRoom = true) :
    Run.Follows (S.related n) S.excused Q
      (EvalM.inside bindings m r) (EvalM.inside bindings k s) := by
  have hbody := hm _ _ (S.push hrelated hroom hbindings)
  unfold EvalM.inside
  generalize m { r with chain := r.chain.push bindings } = x at hbody
  generalize k { s with chain := s.chain.push bindings } = y at hbody
  cases hbody with
  | ok hv hend => exact .ok hv (S.pop hend)
  | error stop hend => exact .error stop (S.pop hend)
  | excused hstop => exact .excused hstop

end Simulates

/-! ## Every form keeps the runs related -/

theorem simulates_native (p : Native) (args : List Value) :
    S.Simulates n D.result (p.call args) (p.call args) := by
  rcases p.call_cases args with ⟨line, hcall⟩ | ⟨result, hcall, hatom⟩
  · rw [hcall]
    exact .bind (.write (·.print line)) fun _ _ => .pure (D.result_of_atom rfl)
  · rw [hcall]
    exact .ofExcept fun v hv => D.result_of_atom (hatom v hv)

/-- The two ways of calling functions keep the runs related. -/
def Callers (S : Simulation D) (call call' : Caller) : Prop :=
  ∀ n f args, D.callable f → (∀ v ∈ args, D.arg v) →
    S.Simulates n (D.Answer f) (call f args) (call' f args)

section Functions

variable {call call' : Caller} (hcall : S.Callers call call')
include hcall

theorem simulates_code {f : Function} {args : List Value} (hf : D.code (.function f))
    (hargs : ∀ v ∈ args, D.arg v) :
    S.Simulates n D.result (call f args) (call' f args) :=
  (hcall n f args (D.callable_of_code hf) hargs).mono fun _ hv => hv hf

theorem simulates_force {v : Value} (hv : D.code v) :
    S.Simulates n D.result (Eval.force call v) (Eval.force call' v) := by
  cases v with
  | function f => exact simulates_code hcall hv fun _ hw => nomatch hw
  | _ => exact .pure (D.result_of_code rfl hv)

theorem simulates_forceAll {vs : List Value} (hvs : ∀ v ∈ vs, D.code v) :
    S.Simulates n (fun ws => ∀ w ∈ ws, D.result w)
      (Eval.forceAll call vs) (Eval.forceAll call' vs) := by
  induction vs with
  | nil => exact .pure fun w hw => nomatch hw
  | cons v vs ih =>
      rw [List.forall_mem_cons] at hvs
      apply Simulates.bind (simulates_force hcall hvs.1)
      intro first hfirst
      apply Simulates.bind (ih hvs.2)
      intro rest hrest
      exact .pure (List.forall_mem_cons.mpr ⟨hfirst, hrest⟩)

theorem simulates_forceArg {v : Value} (hv : D.code v) :
    S.Simulates n D.arg (Eval.forceArg call v) (Eval.forceArg call' v) := by
  cases v with
  | function f =>
      apply Simulates.look
      intro r s hrelated
      rw [Chain.passed?_congr (S.get? hrelated) f]
      cases hpassed : s.chain.passed? f with
      | none =>
          have hforced := simulates_force (n := n) hcall hv r s hrelated
          exact hforced.mono fun _ => D.arg_of_result
      | some g =>
          rw [← Chain.passed?_congr (S.get? hrelated) f] at hpassed
          obtain ⟨hlambda, rfl | ⟨name, hname⟩⟩ := Chain.passed?_eq_some hpassed
          · exact .ok (D.arg_of_lambda hlambda hv) hrelated
          · exact .ok (D.arg_of_lambda hlambda (S.bound hrelated hname)) hrelated
  | _ => exact .pure (D.arg_of_result (D.result_of_code rfl hv))

theorem simulates_forceArgs {vs : List Value} (hvs : ∀ v ∈ vs, D.code v) :
    S.Simulates n (fun ws => ∀ w ∈ ws, D.arg w)
      (Eval.forceArgs call vs) (Eval.forceArgs call' vs) := by
  induction vs with
  | nil => exact .pure fun w hw => nomatch hw
  | cons v vs ih =>
      rw [List.forall_mem_cons] at hvs
      apply Simulates.bind (simulates_forceArg hcall hvs.1)
      intro first hfirst
      apply Simulates.bind (ih hvs.2)
      intro rest hrest
      exact .pure (List.forall_mem_cons.mpr ⟨hfirst, hrest⟩)

theorem simulates_effect {v : Value} (hv : ∀ f, v = .function f → D.callable f) :
    S.Simulates n (fun _ => True) (Eval.effect call v) (Eval.effect call' v) := by
  cases v with
  | function f =>
      apply Simulates.bind (hcall n f [] (hv f rfl) fun _ hw => nomatch hw)
      exact fun _ _ => .pure trivial
  | _ => exact .pure trivial

/-- The last element of a body is forced for its value, and those before it for their
effects. -/
theorem simulates_body {vs : List Value} (hlast : ∀ v ∈ vs.getLast?.toList, D.code v)
    (hsteps : ∀ f, .function f ∈ vs.dropLast → D.callable f) :
    S.Simulates n D.result (Eval.body call vs) (Eval.body call' vs) := by
  induction vs with
  | nil => exact .pure (D.result_of_atom rfl)
  | cons v vs ih =>
      cases vs with
      | nil => exact simulates_force hcall (hlast v (by simp))
      | cons w ws =>
          rw [List.getLast?_cons_cons] at hlast
          rw [List.dropLast_cons_cons] at hsteps
          apply Simulates.bind
          · apply simulates_effect hcall
            rintro f rfl
            exact hsteps f List.mem_cons_self
          · intro _ _
            exact ih hlast fun f hf => hsteps f (List.mem_cons_of_mem v hf)

omit hcall in
theorem simulates_define {id : Identity} {target v : Value}
    (hf : D.callable (.thunk id (.define target v))) :
    S.Simulates n (D.Answer (.thunk id (.define target v)))
      (Eval.define target v) (Eval.define target v) := by
  apply Simulates.bind (Simulates.ofExcept fun _ _ => trivial)
  intro name _
  apply Simulates.bind (Simulates.update fun r s hrelated => S.define hrelated hf name)
  intro _ _
  exact .pure D.result_define

theorem simulates_set (target : Value) {v : Value} (hv : D.code v) :
    S.Simulates n D.result (Eval.set call target v) (Eval.set call' target v) := by
  apply Simulates.bind (Simulates.ofExcept fun _ _ => trivial)
  intro name _
  apply Simulates.look
  intro r s hrelated
  rw [S.get? hrelated name]
  cases s.chain.get? name with
  | none => exact .error _ hrelated
  | some old =>
      refine Simulates.bind (simulates_force hcall hv) ?_ r s hrelated
      intro w hw
      apply Simulates.bind (Simulates.update fun r s hafter => S.set hafter hw name)
      intro _ _
      exact .pure hw

theorem simulates_callNamed (callee : String) {args : List Value}
    (hargs : ∀ v ∈ args, D.code v) :
    S.Simulates n D.result (Eval.callNamed call callee args)
      (Eval.callNamed call' callee args) := by
  apply Simulates.look
  intro r s hrelated
  rw [← Chain.lookup_congr (S.get? hrelated) callee]
  unfold Chain.lookup
  cases hname : r.chain.get? callee with
  | none => exact .error _ hrelated
  | some v =>
      have hv : D.code v := S.bound hrelated hname
      cases v with
      | function f =>
          refine Simulates.bind (simulates_forceArgs hcall hargs) ?_ r s hrelated
          intro vs hvs
          exact simulates_code hcall hv hvs
      | _ => exact .ok (D.result_of_code rfl hv) hrelated

theorem simulates_thunk {id : Identity} {f : Form} (hf : D.callable (.thunk id f)) :
    S.Simulates n (D.Answer (.thunk id f)) (Eval.form call f) (Eval.form call' f) := by
  have hvalues : ∀ v ∈ f.values, D.code v := fun v hv => D.values hf hv
  -- All forms but a definition give results, whether or not their value is asked for.
  have hanswer : ∀ {m k : EvalM Value}, S.Simulates n D.result m k →
      S.Simulates n (D.Answer (.thunk id f)) m k :=
    fun hm => hm.mono fun _ hv _ => hv
  cases f with
  | empty => exact hanswer (.pure (D.result_of_atom rfl))
  | arith op operands =>
      apply hanswer
      apply Simulates.bind (simulates_forceAll hcall hvalues)
      intro vs hvs
      exact .ofExcept fun v hv => D.result_combine hvs hv
  | unsupported op => exact .fail (.unsupportedOperator op)
  | cond test yes no =>
      apply hanswer
      apply Simulates.bind (simulates_force hcall (hvalues test (by simp [Form.values])))
      intro v _
      split
      · exact simulates_force hcall (hvalues yes (by simp [Form.values]))
      · exact simulates_force hcall (hvalues no (by simp [Form.values]))
  | define target value => exact simulates_define hf
  | set target value =>
      exact hanswer (simulates_set hcall target (hvalues value (by simp [Form.values])))
  | begin values =>
      exact hanswer (simulates_body hcall hvalues fun g hg => D.steps hf hg)
  | list items =>
      apply hanswer
      apply Simulates.bind (simulates_forceAll hcall hvalues)
      intro vs hvs
      exact .pure (D.result_list hvs)
  | call callee args => exact hanswer (simulates_callNamed hcall callee hvalues)

theorem simulates_lambda {id : Identity} {params : List String} {values args : List Value}
    (hf : D.callable (.lambda id params values)) (hargs : ∀ v ∈ args, D.arg v) :
    S.Simulates n D.result (Eval.lambda call params values args)
      (Eval.lambda call' params values args) := by
  have hbody : S.Simulates (n + 1) D.result (Eval.body call values) (Eval.body call' values) :=
    simulates_body hcall (fun v hv => D.values hf hv) fun g hg => D.steps hf hg
  intro r s hrelated
  rw [Eval.lambda_apply, Eval.lambda_apply]
  by_cases hroom : r.chain.hasRoom = true
  · have hroom' : s.chain.hasRoom = true := by
      rcases S.hasRoom hrelated with heq | ⟨hs, _⟩
      · exact heq ▸ hroom
      · exact hs
    rw [if_pos hroom, if_pos hroom']
    have hroom'' : (r.counted params.length args.length).chain.hasRoom = true := by
      simpa using hroom
    exact Simulates.inside (.ofParams params hargs) hbody (S.counted hrelated _ _) hroom''
  · rw [if_neg hroom]
    rcases S.hasRoom hrelated with heq | ⟨_, hexcused⟩
    · rw [if_neg (heq ▸ hroom)]
      exact .error _ hrelated
    · exact .excused hexcused

theorem simulates_deferred (name : String) {args : List Value} (hargs : ∀ v ∈ args, D.arg v) :
    S.Simulates n D.result (Eval.deferred call name args) (Eval.deferred call' name args) := by
  apply Simulates.look
  intro r s hrelated
  rw [← Chain.follow_congr (S.get? hrelated) maxDepth name]
  cases htarget : r.chain.follow maxDepth name with
  | data v =>
      obtain ⟨hdata, last, hlast⟩ := Chain.follow_data htarget
      exact .ok (D.result_of_code hdata (S.bound hrelated hlast)) hrelated
  | function f =>
      obtain ⟨_, last, hlast⟩ := Chain.follow_function htarget
      exact simulates_code hcall (S.bound hrelated hlast) hargs r s hrelated
  | unbound last => exact .error _ hrelated
  | tooLong => exact .error _ hrelated

/-- One call more keeps the runs related. -/
theorem Callers.function : S.Callers (Eval.function call) (Eval.function call') := by
  intro n f args hf hargs
  cases f with
  | thunk id form => exact simulates_thunk hcall hf
  | lambda id params values =>
      exact (simulates_lambda hcall hf hargs).mono fun _ hv _ => hv
  | deferred id name => exact (simulates_deferred hcall name hargs).mono fun _ hv _ => hv
  | native p => exact (simulates_native p args).mono fun _ hv _ => hv
  | host id label params answer =>
      cases answer with
      | none => exact .pure fun _ => D.result_host_args hf hargs
      | some v => exact .pure fun _ => D.result_host hf

end Functions

theorem callers_call (S : Simulation D) (fuel : Nat) : S.Callers (call fuel) (call fuel) := by
  induction fuel with
  | zero => exact fun _ _ _ _ _ => .stop .outOfFuel
  | succ fuel ih => exact ih.function

end Simulation
end MiniLisp
