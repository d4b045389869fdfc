import MiniLisp.Proofs.Eval.Results
import MiniLisp.Proofs.Scope.Storable

/-!
# Tame code ends

Names are bound late and may be overwritten, so that no call is smaller than the
one it comes from.  What bounds a run of tame code is its depth.  No binding ever
holds a thunk; a call through a name therefore reaches data, a built-in function or
a lambda, and a lambda runs one level deeper, where there are fewer levels left.
On each level the code that is left to run gets smaller.

The argument is made for all amounts of fuel at once: from some amount on, a
computation ends in one and the same way, and not for want of fuel.
-/

namespace MiniLisp

/-! ## Computations that end -/

/-- A state at depth `d` in which no name is bound to a thunk. -/
structure Run.Sound (d : Nat) (run : Run) : Prop where
  depth : run.chain.depth = d
  storable : run.chain.Storable

theorem Run.Sound.pop {d : Nat} {run : Run} (hrun : run.Sound (d + 1)) :
    Run.Sound d { run with chain := run.chain.pop } := by
  refine ⟨?_, hrun.storable.pop⟩
  have hdepth := hrun.depth
  unfold Chain.pop
  unfold Chain.depth at hdepth
  cases houter : run.chain.outer with
  | nil =>
      rw [houter] at hdepth
      cases hdepth
  | cons scope rest =>
      rw [houter] at hdepth
      exact Nat.succ.inj hdepth

/-- An end with a value or an error, in a sound state. -/
inductive Run.Finished (d : Nat) (Q : α → Prop) : EStateM.Result Stop Run α → Prop
  | value {v : α} {run : Run} : Q v → run.Sound d → Finished d Q (.ok v run)
  | failure (e : EvalError) {run : Run} : run.Sound d → Finished d Q (.error (.failed e) run)

/-- From some amount of fuel on, the computation ends in one and the same way. -/
def Settles (d : Nat) (m : Nat → EvalM α) (run : Run) (Q : α → Prop) : Prop :=
  ∃ fuel result, (∀ more ≥ fuel, m more run = result) ∧ Run.Finished d Q result

namespace Settles

variable {d : Nat} {run : Run}

theorem pure {v : α} {Q : α → Prop} (hrun : run.Sound d) (hv : Q v) :
    Settles d (fun _ => Pure.pure v) run Q :=
  ⟨0, .ok v run, fun _ _ => rfl, .value hv hrun⟩

theorem fail {Q : α → Prop} (hrun : run.Sound d) (e : EvalError) :
    Settles d (fun _ => EvalM.fail e) run Q :=
  ⟨0, .error (.failed e) run, fun _ _ => rfl, .failure e hrun⟩

theorem ofExcept {Q : α → Prop} (hrun : run.Sound d) {result : Except EvalError α}
    (hresult : ∀ v, result = .ok v → Q v) :
    Settles d (fun _ => EvalM.ofExcept result) run Q := by
  cases result with
  | ok v => exact pure hrun (hresult v rfl)
  | error e => exact fail hrun e

theorem bind {m : Nat → EvalM α} {next : Nat → α → EvalM β} {P : α → Prop} {Q : β → Prop}
    (hm : Settles d m run P)
    (hnext : ∀ v middle, P v → middle.Sound d → Settles d (fun k => next k v) middle Q) :
    Settles d (fun k => m k >>= next k) run Q := by
  obtain ⟨fuel, result, hfuel, hfinished⟩ := hm
  cases hfinished with
  | @value v middle hv hmiddle =>
      obtain ⟨fuel', result', hfuel', hfinished'⟩ := hnext v middle hv hmiddle
      refine ⟨max fuel fuel', result', ?_, hfinished'⟩
      intro more hmore
      change EStateM.bind (m more) (next more) run = result'
      unfold EStateM.bind
      rw [hfuel more (Nat.le_trans (Nat.le_max_left fuel fuel') hmore)]
      exact hfuel' more (Nat.le_trans (Nat.le_max_right fuel fuel') hmore)
  | @failure e middle hmiddle =>
      refine ⟨fuel, .error (.failed e) middle, ?_, .failure e hmiddle⟩
      intro more hmore
      change EStateM.bind (m more) (next more) run = _
      unfold EStateM.bind
      rw [hfuel more hmore]

theorem look {next : Nat → Chain → EvalM α} {Q : α → Prop}
    (h : Settles d (fun k => next k run.chain) run Q) :
    Settles d (fun k => EvalM.chain >>= next k) run Q := h

theorem update {f : Chain → Except EvalError Chain} (hrun : run.Sound d)
    (hf : ∀ c, f run.chain = .ok c → c.depth = d ∧ c.Storable) :
    Settles d (fun _ => EvalM.update f) run fun _ => True := by
  cases hchain : f run.chain with
  | ok c =>
      obtain ⟨hdepth, hstorable⟩ := hf c hchain
      refine ⟨0, .ok () { run with chain := c }, ?_, .value trivial ⟨hdepth, hstorable⟩⟩
      intro more _
      simp only [EvalM.update, hchain]
  | error e =>
      refine ⟨0, .error (.failed e) run, ?_, .failure e hrun⟩
      intro more _
      simp only [EvalM.update, hchain]

theorem inside {m : Nat → EvalM α} {bindings : Bindings} {Q : α → Prop}
    (h : Settles (d + 1) m { run with chain := run.chain.push bindings } Q) :
    Settles d (fun k => EvalM.inside bindings (m k)) run Q := by
  obtain ⟨fuel, result, hfuel, hfinished⟩ := h
  cases hfinished with
  | @value v inner hv hinner =>
      refine ⟨fuel, .ok v { inner with chain := inner.chain.pop }, ?_, .value hv hinner.pop⟩
      intro more hmore
      simp only [EvalM.inside, hfuel more hmore]
  | @failure e inner hinner =>
      refine ⟨fuel, .error (.failed e) { inner with chain := inner.chain.pop }, ?_,
        .failure e hinner.pop⟩
      intro more hmore
      simp only [EvalM.inside, hfuel more hmore]

/-- One more call takes one more unit of fuel. -/
theorem ofFunction {f : Function} {args : List Value} {Q : Value → Prop}
    (h : Settles d (fun k => Eval.function (call k) f args) run Q) :
    Settles d (fun k => call k f args) run Q := by
  obtain ⟨fuel, result, hfuel, hfinished⟩ := h
  refine ⟨fuel + 1, result, ?_, hfinished⟩
  intro more hmore
  obtain ⟨k, rfl⟩ := Nat.exists_eq_add_of_le' hmore
  exact hfuel (k + fuel) (Nat.le_add_left fuel k)

theorem checkCount (hrun : run.Sound d) (expected got : Nat) :
    Settles d (fun _ => Eval.checkCount expected got) run fun _ => True := by
  refine ⟨0, .ok () (run.counted expected got), ?_, .value trivial ?_⟩
  · intro more _
    exact Eval.checkCount_apply expected got run
  · constructor
    · rw [Run.chain_counted]
      exact hrun.depth
    · rw [Run.chain_counted]
      exact hrun.storable

end Settles

/-! ## Values that come out of operators and built-in functions -/

theorem Operator.combine_storable {op : Operator} {vs : List Value} {v : Value}
    (hvs : ∀ w ∈ vs, w.Storable) (h : op.combine vs = .ok v) : v.Storable := by
  rcases Operator.combine_isAtom_or_mem h with hatom | hmem
  · exact .data (Value.isFunction_of_isAtom hatom)
  · exact hvs v hmem

theorem settles_native {d : Nat} {run : Run} (hrun : run.Sound d) (p : Native)
    (args : List Value) : Settles d (fun _ => p.call args) run Value.Storable := by
  rcases p.call_cases args with ⟨line, hcall⟩ | ⟨result, hcall, hatom⟩
  · rw [hcall]
    exact ⟨0, _, fun _ _ => rfl, .value (.data rfl) ⟨hrun.depth, hrun.storable⟩⟩
  · rw [hcall]
    exact .ofExcept hrun fun v hv => .data (Value.isFunction_of_isAtom (hatom v hv))

/-! ## One level of depth -/

/-- Stored functions end when they are called at depth `d`. -/
def CallsSettle (d : Nat) : Prop :=
  ∀ (f : Function) (args : List Value) (run : Run), (Value.function f).Storable →
    (∀ v ∈ args, v.Storable) → run.Sound d →
      Settles d (fun k => call k f args) run Value.Storable

/-- The value ends when it is forced at depth `d`. -/
def ForceSettles (d : Nat) (v : Value) : Prop :=
  ∀ run : Run, run.Sound d → Settles d (fun k => Eval.force (call k) v) run Value.Storable

section Level

variable {d : Nat} {run : Run}

theorem settles_forceAll {vs : List Value} (hvs : ∀ v ∈ vs, ForceSettles d v)
    (hrun : run.Sound d) :
    Settles d (fun k => Eval.forceAll (call k) vs) run fun ws => ∀ w ∈ ws, w.Storable := by
  induction vs generalizing run with
  | nil => exact .pure hrun fun w hw => nomatch hw
  | cons v vs ih =>
      apply Settles.bind (hvs v List.mem_cons_self run hrun)
      intro first afterFirst hfirst hafterFirst
      apply Settles.bind (ih (fun w hw => hvs w (List.mem_cons_of_mem v hw)) hafterFirst)
      intro rest afterRest hrest hafterRest
      exact .pure hafterRest (List.forall_mem_cons.mpr ⟨hfirst, hrest⟩)

theorem settles_forceArg {v : Value} (hplain : v.Plain) (hv : ForceSettles d v)
    (hrun : run.Sound d) :
    Settles d (fun k => Eval.forceArg (call k) v) run Value.Storable := by
  cases v with
  | function f =>
      apply Settles.look
      cases hpassed : run.chain.passed? f with
      | none => exact hv run hrun
      | some g => exact .pure hrun (hrun.storable.passed? hplain hpassed)
  | _ => exact hv run hrun

theorem settles_forceArgs {vs : List Value} (hplain : ∀ v ∈ vs, v.Plain)
    (hvs : ∀ v ∈ vs, ForceSettles d v) (hrun : run.Sound d) :
    Settles d (fun k => Eval.forceArgs (call k) vs) run fun ws => ∀ w ∈ ws, w.Storable := by
  induction vs generalizing run with
  | nil => exact .pure hrun fun w hw => nomatch hw
  | cons v vs ih =>
      apply Settles.bind
        (settles_forceArg (hplain v List.mem_cons_self) (hvs v List.mem_cons_self) hrun)
      intro first afterFirst hfirst hafterFirst
      apply Settles.bind (ih (fun w hw => hplain w (List.mem_cons_of_mem v hw))
        (fun w hw => hvs w (List.mem_cons_of_mem v hw)) hafterFirst)
      intro rest afterRest hrest hafterRest
      exact .pure hafterRest (List.forall_mem_cons.mpr ⟨hfirst, hrest⟩)

theorem settles_effect {v : Value} (hv : ForceSettles d v) (hrun : run.Sound d) :
    Settles d (fun k => Eval.effect (call k) v) run fun _ => True := by
  cases v with
  | function f =>
      apply Settles.bind (hv run hrun)
      intro _ middle _ hmiddle
      exact .pure hmiddle trivial
  | _ => exact .pure hrun trivial

theorem settles_body {vs : List Value} (hvs : ∀ v ∈ vs, ForceSettles d v)
    (hrun : run.Sound d) :
    Settles d (fun k => Eval.body (call k) vs) run Value.Storable := by
  induction vs generalizing run with
  | nil => exact .pure hrun (.data rfl)
  | cons v vs ih =>
      cases vs with
      | nil => exact hvs v List.mem_cons_self run hrun
      | cons w ws =>
          apply Settles.bind (settles_effect (hvs v List.mem_cons_self) hrun)
          intro _ middle _ hmiddle
          exact ih (fun u hu => hvs u (List.mem_cons_of_mem v hu)) hmiddle

theorem settles_define (target : Value) {value : Value} (hvalue : value.Storable)
    (hrun : run.Sound d) :
    Settles d (fun _ => Eval.define target value) run Value.Storable := by
  apply Settles.bind (Settles.ofExcept hrun fun _ _ => trivial)
  intro name middle _ hmiddle
  apply Settles.bind
  · apply Settles.update hmiddle
    intro c hc
    constructor
    · rw [(Chain.Extends.define hc).depth_eq]
      exact hmiddle.depth
    · exact hmiddle.storable.define hvalue hc
  · intro _ last _ hlast
    exact .pure hlast hvalue

theorem settles_set (target : Value) {value : Value} (hvalue : ForceSettles d value)
    (hrun : run.Sound d) :
    Settles d (fun k => Eval.set (call k) target value) run Value.Storable := by
  apply Settles.bind (Settles.ofExcept hrun fun _ _ => trivial)
  intro name middle _ hmiddle
  apply Settles.look
  cases middle.chain.get? name with
  | none => exact .fail hmiddle (.notDefined name)
  | some old =>
      apply Settles.bind (hvalue middle hmiddle)
      intro v forced hv hforced
      apply Settles.bind
      · apply Settles.update hforced
        intro c hc
        constructor
        · rw [(Chain.SameNames.set hc).extends.depth_eq]
          exact hforced.depth
        · exact hforced.storable.set hv hc
      · intro _ last _ hlast
        exact .pure hlast hv

theorem settles_callNamed (hcalls : CallsSettle d) (callee : String) {args : List Value}
    (hplain : ∀ v ∈ args, v.Plain) (hargs : ∀ v ∈ args, ForceSettles d v)
    (hrun : run.Sound d) :
    Settles d (fun k => Eval.callNamed (call k) callee args) run Value.Storable := by
  apply Settles.look
  apply Settles.bind
  · apply Settles.ofExcept hrun
    intro v hv
    have hget : run.chain.get? callee = some v := by
      unfold Chain.lookup at hv
      split at hv
      next hname =>
        cases hv
        exact hname
      next => cases hv
    exact hrun.storable.get? hget
  · intro v middle hv hmiddle
    cases v with
    | function f =>
        apply Settles.bind (settles_forceArgs hplain hargs hmiddle)
        intro vs last hvs hlast
        exact hcalls f vs last hv hvs hlast
    | _ => exact .pure hmiddle hv

/-- Forcing plain code ends, once calls of stored functions do: what is forced gets
smaller with every form. -/
theorem forceSettles_of_plain (hcalls : CallsSettle d) {v : Value} (hv : v.Plain) :
    ForceSettles d v := by
  induction hv with
  | @data v hdata =>
      intro run hrun
      cases v with
      | function f => cases hdata
      | _ => exact .pure hrun (.data rfl)
  | deferred id name =>
      intro run hrun
      exact hcalls _ [] run ⟨.deferred id name, rfl⟩ (fun w hw => nomatch hw) hrun
  | native p =>
      intro run hrun
      exact hcalls _ [] run ⟨.native p, rfl⟩ (fun w hw => nomatch hw) hrun
  | lambda id params hbody _ =>
      intro run hrun
      exact hcalls _ [] run ⟨.lambda id params hbody, rfl⟩ (fun w hw => nomatch hw) hrun
  | empty id =>
      intro run hrun
      exact .ofFunction (.pure hrun (.data rfl))
  | arith id op _ ih =>
      intro run hrun
      apply Settles.ofFunction
      apply Settles.bind (settles_forceAll ih hrun)
      intro vs middle hvs hmiddle
      exact .ofExcept hmiddle fun w hw => Operator.combine_storable hvs hw
  | unsupported id op =>
      intro run hrun
      exact .ofFunction (.fail hrun (.unsupportedOperator op))
  | cond id _ _ _ ihtest ihyes ihno =>
      intro run hrun
      apply Settles.ofFunction
      apply Settles.bind (ihtest run hrun)
      intro w middle _ hmiddle
      by_cases htruthy : w.isTruthy
      · simp only [htruthy, if_true]
        exact ihyes middle hmiddle
      · simp only [htruthy]
        exact ihno middle hmiddle
  | define id target hvalue hthunk _ =>
      intro run hrun
      exact .ofFunction (settles_define target ⟨hvalue, hthunk⟩ hrun)
  | set id target _ ih =>
      intro run hrun
      exact .ofFunction (settles_set target ih hrun)
  | begin id _ ih =>
      intro run hrun
      exact .ofFunction (settles_body ih hrun)
  | list id _ ih =>
      intro run hrun
      apply Settles.ofFunction
      apply Settles.bind (settles_forceAll ih hrun)
      intro vs middle _ hmiddle
      exact .pure hmiddle (.data rfl)
  | call id callee hargs ih =>
      intro run hrun
      exact .ofFunction (settles_callNamed hcalls callee hargs ih hrun)

/-- A call of a lambda ends if there is no room for it, or if its body ends one
level deeper. -/
theorem settles_lambda {values : List Value}
    (hbody : d < maxDepth → ∀ inner : Run, inner.Sound (d + 1) →
      Settles (d + 1) (fun k => Eval.body (call k) values) inner Value.Storable)
    (params : List String) {args : List Value} (hargs : ∀ v ∈ args, v.Storable)
    (hrun : run.Sound d) :
    Settles d (fun k => Eval.lambda (call k) params values args) run Value.Storable := by
  apply Settles.look
  by_cases hroom : run.chain.hasRoom
  · simp only [hroom, if_true]
    have hlt : d < maxDepth := by
      rw [← hrun.depth]
      exact of_decide_eq_true hroom
    apply Settles.bind (Settles.checkCount hrun params.length args.length)
    intro _ middle _ hmiddle
    apply Settles.inside
    apply hbody hlt
    constructor
    · rw [← hmiddle.depth]
      rfl
    · exact hmiddle.storable.push (.ofParams params hargs)
  · simp only [hroom]
    exact .fail hrun .stackOverflow

end Level

/-! ## All levels -/

theorem callsSettle_of_bodies {d : Nat}
    (hbody : d < maxDepth → ∀ values : List Value, (∀ v ∈ values, v.Plain) →
      ∀ inner : Run, inner.Sound (d + 1) →
        Settles (d + 1) (fun k => Eval.body (call k) values) inner Value.Storable) :
    CallsSettle d := by
  intro f args run hf hargs hrun
  have hdirect : ∀ g : Function, (Value.function g).Storable →
      (∀ id next, g ≠ .deferred id next) →
        Settles d (fun k => call k g args) run Value.Storable := by
    intro g hg hname
    cases g with
    | thunk id form => cases hg.notThunk
    | lambda id params values =>
        apply Settles.ofFunction
        have hplain : ∀ v ∈ values, v.Plain := by
          cases hg.plain with
          | data hdata => cases hdata
          | lambda _ _ hvalues => exact hvalues
        exact settles_lambda (fun hlt => hbody hlt values hplain) params hargs hrun
    | deferred id next => exact absurd rfl (hname id next)
    | native p => exact .ofFunction (settles_native hrun p args)
    | host id label params answer =>
        cases hg.plain with
        | data hdata => cases hdata
  cases f with
  | deferred id name =>
      apply Settles.ofFunction
      apply Settles.look
      cases htarget : run.chain.follow maxDepth name with
      | data v => exact .pure hrun (.data (Chain.follow_data htarget).1)
      | function g =>
          obtain ⟨hg, hname⟩ := hrun.storable.follow htarget
          exact hdirect g hg hname
      | unbound last => exact .fail hrun (.notBound last)
      | tooLong => exact .fail hrun .stackOverflow
  | _ => exact hdirect _ hf fun id next h => by cases h

/-- Stored functions end at every depth.  The induction is on the number of levels
that are left. -/
theorem callsSettle (d : Nat) : CallsSettle d := by
  have hlevels : ∀ room d, maxDepth ≤ d + room → CallsSettle d := by
    intro room
    induction room with
    | zero =>
        intro d hd
        apply callsSettle_of_bodies
        intro hlt
        omega
    | succ room ih =>
        intro d hd
        apply callsSettle_of_bodies
        intro _ values hplain inner hinner
        have hcalls : CallsSettle (d + 1) := ih (d + 1) (by omega)
        exact settles_body (fun v hv => forceSettles_of_plain hcalls (hplain v hv)) hinner
  exact hlevels maxDepth d (Nat.le_add_left maxDepth d)

theorem settles_runFrom {d : Nat} {p : Program} (hp : ∀ f ∈ p, (Value.function f).Plain)
    {run : Run} (hrun : run.Sound d) (index : Nat) {last : Value} (hlast : last.Storable) :
    Settles d (fun k => p.runFrom k index last) run Value.Storable := by
  induction p generalizing run index last with
  | nil => exact .pure hrun hlast
  | cons f fs ih =>
      have htell : Settles d (fun _ => EvalM.tell (.evaluating index)) run fun _ => True :=
        ⟨0, _, fun _ _ => rfl, .value trivial ⟨hrun.depth, hrun.storable⟩⟩
      apply Settles.bind htell
      intro _ told _ htold
      apply Settles.bind
        (forceSettles_of_plain (callsSettle d) (hp f List.mem_cons_self) told htold)
      intro v middle hv hmiddle
      exact ih (fun g hg => hp g (List.mem_cons_of_mem f hg)) hmiddle (index + 1) hv

/-! ## Without tame definitions -/

theorem EvalM.bind_congr {m n : EvalM α} {run : Run} (h : m run = n run)
    (next : α → EvalM β) : (m >>= next) run = (n >>= next) run := by
  change EStateM.bind m next run = EStateM.bind n next run
  unfold EStateM.bind
  rw [h]

theorem EvalM.bind_ok {m : EvalM α} {run after : Run} {v : α} (h : m run = .ok v after)
    (next : α → EvalM β) : (m >>= next) run = next v after := by
  change EStateM.bind m next run = _
  unfold EStateM.bind
  rw [h]

theorem EvalM.bind_error {m : EvalM α} {run after : Run} {stop : Stop}
    (h : m run = .error stop after) (next : α → EvalM β) :
    (m >>= next) run = .error stop after := by
  change EStateM.bind m next run = _
  unfold EStateM.bind
  rw [h]

theorem EvalM.chain_bind (next : Chain → EvalM α) (run : Run) :
    ((Scoped.chain : EvalM Chain) >>= next) run = next run.chain run :=
  rfl

theorem Eval.deferred_apply {call : Caller} {name : String} {f : Function} {run : Run}
    (h : run.chain.follow maxDepth name = .function f) (args : List Value) :
    Eval.deferred call name args run = call f args run := by
  unfold Eval.deferred
  rw [EvalM.chain_bind, h]

/-- A thunk that reads the name it is bound to has no end, whatever the fuel: tame
definitions cannot be dispensed with. -/
theorem self_reading_never_ends {c : Chain} {name : String} {id j : Identity} {op : Operator}
    {rest : List Value} (console : Console)
    (hname : c.get? name =
      some (.function (.thunk id (.arith op (.function (.deferred j name) :: rest)))))
    (fuel : Nat) (k : Identity) (args : List Value) :
    call fuel (.deferred k name) args ⟨c, console⟩ = .error .outOfFuel ⟨c, console⟩ := by
  have htarget : c.follow maxDepth name =
      .function (.thunk id (.arith op (.function (.deferred j name) :: rest))) := by
    unfold maxDepth Chain.follow
    rw [hname]
  have hread : ∀ fuel args, Eval.deferred (call fuel) name args ⟨c, console⟩ =
      call fuel (.thunk id (.arith op (.function (.deferred j name) :: rest))) args
        ⟨c, console⟩ :=
    fun fuel args => Eval.deferred_apply htarget args
  induction fuel using Nat.strongRecOn generalizing k args with
  | _ fuel ih =>
      cases fuel with
      | zero => rfl
      | succ fuel =>
          cases fuel with
          | zero => exact hread 0 args
          | succ fuel =>
              have hagain := ih fuel (by omega) j []
              have hoperands := EvalM.bind_error hagain fun v => do
                let vs ← Eval.forceAll (call fuel) rest
                return v :: vs
              exact (hread (fuel + 1) args).trans
                (EvalM.bind_error hoperands fun vs => .ofExcept (op.combine vs))

end MiniLisp
