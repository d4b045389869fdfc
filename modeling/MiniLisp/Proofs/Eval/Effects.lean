import MiniLisp.Eval.Call
import MiniLisp.Proofs.Eval.Results

/-!
# What a call is made of

However a call goes, all it does is to look up names, to ask how deep it is, to
define or overwrite a name, to print, to tell, to enter a scope, and to stop.  Two
evaluators over different states are therefore related in whatever way relates
these and is kept by sequencing; and a property of computations that these have is
a property of every call.  The induction over the evaluator is made here once, for
relations; what a run leaves unchanged, or cannot see, is then a matter of the few
primitives.  Even a property that does not admit every error is kept by a call, as
long as what is called is not an operator without a meaning.
-/

namespace MiniLisp
namespace Chain

section Congruence

variable {c d : Chain} (h : ∀ name, c.get? name = d.get? name)
include h

theorem lookup_congr (name : String) : c.lookup name = d.lookup name := by
  unfold Chain.lookup
  rw [h]

theorem passed?_congr (f : Function) : c.passed? f = d.passed? f := by
  cases f with
  | deferred id name => simp only [Chain.passed?, h name]
  | _ => rfl

theorem follow_congr (hops : Nat) (name : String) :
    c.follow hops name = d.follow hops name := by
  induction hops generalizing name with
  | zero => rfl
  | succ hops ih =>
      unfold Chain.follow
      rw [h]
      simp only [ih]

end Congruence

/-- Code in either chain sees the same: the values of names, and the depth. -/
structure SameView (c d : Chain) : Prop where
  get? : ∀ name, c.get? name = d.get? name
  depth : c.depth = d.depth

namespace SameView

variable {c d : Chain} (h : c.SameView d)
include h

theorem lookup (name : String) : c.lookup name = d.lookup name :=
  lookup_congr h.get? name

theorem passed? (f : Function) : c.passed? f = d.passed? f :=
  passed?_congr h.get? f

theorem follow (hops : Nat) (name : String) : c.follow hops name = d.follow hops name :=
  follow_congr h.get? hops name

theorem hasRoom : c.hasRoom = d.hasRoom := by
  unfold Chain.hasRoom
  rw [h.depth]

end SameView
end Chain

theorem Eval.ordinary_targetName (form : Binder) (target : Value) :
    Ordinary (Eval.targetName form target) := by
  unfold Eval.targetName
  split
  · exact .ok _
  · exact .error rfl

namespace Scoped

/-- A relation between computations over two kinds of state that holds of the
primitive ones and is kept by sequencing and by scopes.  It need not hold of what
fails over an operator. -/
structure NearlyCongruent {m n : Type → Type} [Monad m] [Scoped m] [Monad n] [Scoped n]
    (R : ∀ {α : Type}, m α → n α → Prop) : Prop where
  pure : ∀ {α : Type} (v : α), R (Pure.pure v) (Pure.pure v)
  bind : ∀ {α β : Type} {x : m α} {y : n α} {f : α → m β} {g : α → n β},
    R x y → (∀ v, R (f v) (g v)) → R (x >>= f) (y >>= g)
  fail : ∀ {α : Type} (e : EvalError), e.isUnsupported = false →
    R (Scoped.fail e : m α) (Scoped.fail e)
  look : ∀ {α : Type} {f : Chain → m α} {g : Chain → n α},
    (∀ c, R (f c) (g c)) → (∀ c d, c.SameView d → f c = f d ∧ g c = g d) →
      R (Scoped.chain >>= f) (Scoped.chain >>= g)
  define : ∀ name v, R (Scoped.define name v : m Unit) (Scoped.define name v)
  set : ∀ name v, R (Scoped.set name v : m Unit) (Scoped.set name v)
  print : ∀ line, R (Scoped.print line : m Unit) (Scoped.print line)
  tell : ∀ event, R (Scoped.tell event : m Unit) (Scoped.tell event)
  inside : ∀ {α : Type} {x : m α} {y : n α} (params : List String) (args : List Value),
    R x y → R (Scoped.inside params args x) (Scoped.inside params args y)

namespace NearlyCongruent

variable {m n : Type → Type} [Monad m] [Scoped m] [Monad n] [Scoped n]
  {R : ∀ {α : Type}, m α → n α → Prop} (hR : NearlyCongruent @R)
include hR

theorem ofExcept {α : Type} {result : Except EvalError α} (hresult : Ordinary result) :
    R (Scoped.ofExcept result : m α) (Scoped.ofExcept result) := by
  cases result with
  | ok v => exact hR.pure v
  | error e => exact hR.fail e (hresult e rfl)

theorem native (p : Native) (args : List Value) : R (p.call args : m Value) (p.call args) := by
  cases p with
  | print => exact hR.bind (hR.print _) fun _ => hR.pure _
  | length => exact hR.ofExcept (.bind (Native.ordinary_single _ _) Native.ordinary_count)
  | not => exact hR.ofExcept (.bind (Native.ordinary_single _ _) fun _ => .ok _)

section Functions

variable {call : CallerIn m} {k : CallerIn n}
  (hcall : ∀ f args, R (call f args) (k f args))
include hcall

theorem force (v : Value) : R (Eval.force call v) (Eval.force k v) := by
  cases v with
  | function f => exact hcall f []
  | _ => exact hR.pure _

theorem forceAll (vs : List Value) : R (Eval.forceAll call vs) (Eval.forceAll k vs) := by
  induction vs with
  | nil => exact hR.pure []
  | cons v vs ih =>
      apply hR.bind (hR.force hcall v)
      intro first
      apply hR.bind ih
      intro rest
      exact hR.pure (first :: rest)

theorem forceArg (v : Value) : R (Eval.forceArg call v) (Eval.forceArg k v) := by
  cases v with
  | function f =>
      apply hR.look
      · intro c
        cases c.passed? f with
        | none => exact hcall f []
        | some g => exact hR.pure (Value.function g)
      · intro c d hview
        rw [hview.passed? f]
        exact ⟨rfl, rfl⟩
  | _ => exact hR.pure _

theorem forceArgs (vs : List Value) : R (Eval.forceArgs call vs) (Eval.forceArgs k vs) := by
  induction vs with
  | nil => exact hR.pure []
  | cons v vs ih =>
      apply hR.bind (hR.forceArg hcall v)
      intro first
      apply hR.bind ih
      intro rest
      exact hR.pure (first :: rest)

theorem effect (v : Value) : R (Eval.effect call v) (Eval.effect k v) := by
  cases v with
  | function f => exact hR.bind (hcall f []) fun _ => hR.pure ()
  | _ => exact hR.pure ()

theorem body (vs : List Value) : R (Eval.body call vs) (Eval.body k vs) := by
  induction vs with
  | nil => exact hR.pure Value.null
  | cons v vs ih =>
      cases vs with
      | nil => exact hR.force hcall v
      | cons w ws => exact hR.bind (hR.effect hcall v) fun _ => ih

omit hcall in
theorem defineForm (target value : Value) :
    R (Eval.define target value : m Value) (Eval.define target value) := by
  apply hR.bind (hR.ofExcept (Eval.ordinary_targetName _ _))
  intro name
  exact hR.bind (hR.define name value) fun _ => hR.pure value

theorem setForm (target value : Value) :
    R (Eval.set call target value) (Eval.set k target value) := by
  apply hR.bind (hR.ofExcept (Eval.ordinary_targetName _ _))
  intro name
  apply hR.look
  · intro c
    cases c.get? name with
    | none => exact hR.fail (.notDefined name) rfl
    | some old =>
        apply hR.bind (hR.force hcall value)
        intro v
        exact hR.bind (hR.set name v) fun _ => hR.pure v
  · intro c d hview
    rw [hview.get? name]
    exact ⟨rfl, rfl⟩

theorem callNamed (callee : String) (args : List Value) :
    R (Eval.callNamed call callee args) (Eval.callNamed k callee args) := by
  apply hR.look
  · intro c
    apply hR.bind (hR.ofExcept (c.ordinary_lookup callee))
    intro v
    cases v with
    | function f => exact hR.bind (hR.forceArgs hcall args) fun vs => hcall f vs
    | _ => exact hR.pure _
  · intro c d hview
    rw [hview.lookup callee]
    exact ⟨rfl, rfl⟩

theorem form {f : Form}
    (hf : ∀ op, f = .unsupported op →
      R (Scoped.fail (.unsupportedOperator op) : m Value)
        (Scoped.fail (.unsupportedOperator op))) :
    R (Eval.form call f) (Eval.form k f) := by
  cases f with
  | empty => exact hR.pure Value.null
  | arith op operands =>
      exact hR.bind (hR.forceAll hcall operands) fun vs => hR.ofExcept (op.ordinary_combine vs)
  | unsupported op => exact hf op rfl
  | cond test yes no =>
      apply hR.bind (hR.force hcall test)
      intro v
      split
      · exact hR.force hcall yes
      · exact hR.force hcall no
  | define target value => exact hR.defineForm target value
  | set target value => exact hR.setForm hcall target value
  | begin values => exact hR.body hcall values
  | list items =>
      exact hR.bind (hR.forceAll hcall items) fun vs => hR.pure (Value.list vs)
  | call callee args => exact hR.callNamed hcall callee args

omit hcall in
theorem checkCount (expected got : Nat) :
    R (Eval.checkCount expected got : m Unit) (Eval.checkCount expected got) := by
  unfold Eval.checkCount
  split
  · exact hR.pure ()
  · exact hR.tell _

theorem lambda (params : List String) (values args : List Value) :
    R (Eval.lambda call params values args) (Eval.lambda k params values args) := by
  apply hR.look
  · intro c
    split
    · apply hR.bind (hR.checkCount params.length args.length)
      intro _
      exact hR.inside params args (hR.body hcall values)
    · exact hR.fail .stackOverflow rfl
  · intro c d hview
    rw [hview.hasRoom]
    exact ⟨rfl, rfl⟩

theorem deferred (name : String) (args : List Value) :
    R (Eval.deferred call name args) (Eval.deferred k name args) := by
  apply hR.look
  · intro c
    cases c.follow maxDepth name with
    | data v => exact hR.pure v
    | function f => exact hcall f args
    | unbound last => exact hR.fail (.notBound last) rfl
    | tooLong => exact hR.fail .stackOverflow rfl
  · intro c d hview
    rw [hview.follow maxDepth name]
    exact ⟨rfl, rfl⟩

theorem function {f : Function} (args : List Value)
    (hf : ∀ id op, f = .thunk id (.unsupported op) →
      R (Scoped.fail (.unsupportedOperator op) : m Value)
        (Scoped.fail (.unsupportedOperator op))) :
    R (Eval.function call f args) (Eval.function k f args) := by
  cases f with
  | thunk id form => exact hR.form hcall fun op hop => hf id op (by rw [hop])
  | lambda id params values => exact hR.lambda hcall params values args
  | deferred id name => exact hR.deferred hcall name args
  | native p => exact hR.native p args
  | host id label params answer =>
      cases answer with
      | none => exact hR.pure (Value.list args)
      | some v => exact hR.pure v

end Functions
end NearlyCongruent
end Scoped

namespace EvalM

/-- A property of computations that holds of the primitive ones and is kept by
sequencing and by scopes.  It need not hold of what fails over an operator. -/
structure NearlyClosed (P : ∀ {α : Type}, EvalM α → Prop) : Prop where
  pure : ∀ {α : Type} (v : α), P (Pure.pure v : EvalM α)
  bind : ∀ {α β : Type} {m : EvalM α} {next : α → EvalM β},
    P m → (∀ v, P (next v)) → P (m >>= next)
  fail : ∀ {α : Type} (e : EvalError), e.isUnsupported = false → P (EvalM.fail e : EvalM α)
  look : ∀ {α : Type} {next : Chain → EvalM α},
    (∀ c, P (next c)) → (∀ c d, c.SameView d → next c = next d) →
      P (EvalM.chain >>= next)
  define : ∀ name v, P (EvalM.update (·.define name v))
  set : ∀ name v, P (EvalM.update (·.set name v))
  print : ∀ line, P (EvalM.print line)
  tell : ∀ event, P (EvalM.tell event)
  inside : ∀ {α : Type} {m : EvalM α} (bindings : Bindings),
    P m → P (EvalM.inside bindings m)

/-- It holds of whatever stops. -/
structure Closed (P : ∀ {α : Type}, EvalM α → Prop) : Prop extends NearlyClosed P where
  stop : ∀ {α : Type} (s : Stop), P (throw s : EvalM α)
  fail := fun e _ => stop (.failed e)

namespace NearlyClosed

variable {P : ∀ {α : Type}, EvalM α → Prop} (hP : NearlyClosed P)
include hP

/-- A property of computations is a relation that does not look at its second side. -/
theorem congruent :
    Scoped.NearlyCongruent (m := EvalM) (n := EvalM) fun x _ => P x where
  pure := hP.pure
  bind := hP.bind
  fail := hP.fail
  look hnext hview := hP.look hnext fun c d h => (hview c d h).1
  define := hP.define
  set := hP.set
  print := hP.print
  tell := hP.tell
  inside params args := hP.inside (.ofParams params args)

theorem checkCount (expected got : Nat) : P (Eval.checkCount expected got) :=
  hP.congruent.checkCount expected got

section Functions

variable {call : Caller} (hcall : ∀ f args, P (call f args))
include hcall

theorem force (v : Value) : P (Eval.force call v) :=
  hP.congruent.force (k := call) hcall v

theorem forceArgs (vs : List Value) : P (Eval.forceArgs call vs) :=
  hP.congruent.forceArgs (k := call) hcall vs

theorem body (vs : List Value) : P (Eval.body call vs) :=
  hP.congruent.body (k := call) hcall vs

theorem function {f : Function} (args : List Value)
    (hf : ∀ id op, f = .thunk id (.unsupported op) →
      P (EvalM.fail (.unsupportedOperator op) : EvalM Value)) :
    P (Eval.function call f args) :=
  hP.congruent.function (k := call) hcall args hf

end Functions
end NearlyClosed

/-- What the primitives have and sequencing keeps, every call has. -/
theorem Closed.call {P : ∀ {α : Type}, EvalM α → Prop} (hP : Closed P) (fuel : Nat)
    (f : Function) (args : List Value) : P (MiniLisp.call fuel f args) := by
  induction fuel generalizing f args with
  | zero => exact hP.stop .outOfFuel
  | succ fuel ih => exact hP.function ih args fun _ op _ => hP.stop _

end EvalM
end MiniLisp
