import Mathlib.Data.List.Forall2
import MiniLisp.Proofs.Eval.Effects

/-!
# The names that a call leaves bound

A call may define names in the scope it runs in and overwrite bindings anywhere
on its chain.  It binds no new name in an enclosing scope, unbinds none, and ends
at the depth it began at.  A lambda works in a scope of its own, so its caller's
scope keeps its names too.  All of this holds also of a call that fails.
-/

namespace MiniLisp

def Bindings.SameNames (a b : Bindings) : Prop :=
  ∀ name, name ∈ a ↔ name ∈ b

namespace Bindings.SameNames

theorem refl (a : Bindings) : a.SameNames a :=
  fun _ => Iff.rfl

theorem trans {a b c : Bindings} (hab : a.SameNames b) (hbc : b.SameNames c) :
    a.SameNames c :=
  fun name => (hab name).trans (hbc name)

theorem insert {a : Bindings} {name : String} (hname : name ∈ a) (v : Value) :
    a.SameNames (a.insert name v) := by
  intro other
  rw [Std.TreeMap.mem_insert, Std.LawfulEqCmp.compare_eq_iff_eq]
  constructor
  · exact Or.inr
  · rintro (rfl | hother)
    · exact hname
    · exact hother

theorem forall₂_refl (scopes : List Bindings) :
    List.Forall₂ Bindings.SameNames scopes scopes :=
  List.forall₂_same.mpr fun scope _ => refl scope

theorem forall₂_trans {as bs cs : List Bindings}
    (hab : List.Forall₂ Bindings.SameNames as bs)
    (hbc : List.Forall₂ Bindings.SameNames bs cs) :
    List.Forall₂ Bindings.SameNames as cs := by
  induction hab generalizing cs with
  | nil => exact hbc
  | cons hhead _ ih =>
      cases hbc with
      | cons hhead' htail' => exact .cons (hhead.trans hhead') (ih htail')

end Bindings.SameNames

namespace Chain

def SameNames (c d : Chain) : Prop :=
  List.Forall₂ Bindings.SameNames c.scopes d.scopes

/-- The second chain binds the names of the first, scope by scope, and possibly
further ones in the innermost scope. -/
structure Extends (c d : Chain) : Prop where
  inner : ∀ name, name ∈ c.inner → name ∈ d.inner
  outer : List.Forall₂ Bindings.SameNames c.outer d.outer

theorem SameNames.extends {c d : Chain} (h : c.SameNames d) : c.Extends d := by
  cases h with
  | cons hinner houter => exact ⟨fun name => (hinner name).mp, houter⟩

theorem SameNames.refl (c : Chain) : c.SameNames c :=
  Bindings.SameNames.forall₂_refl c.scopes

namespace Extends

theorem refl (c : Chain) : c.Extends c :=
  (SameNames.refl c).extends

theorem trans {c d e : Chain} (hcd : c.Extends d) (hde : d.Extends e) : c.Extends e where
  inner name hname := hde.inner name (hcd.inner name hname)
  outer := Bindings.SameNames.forall₂_trans hcd.outer hde.outer

theorem depth_eq {c d : Chain} (h : c.Extends d) : d.depth = c.depth :=
  h.outer.length_eq.symm

theorem bind (c : Chain) (name : String) (v : Value) : c.Extends (c.bind name v) where
  inner _ hother := Std.TreeMap.mem_insert.mpr (Or.inr hother)
  outer := Bindings.SameNames.forall₂_refl c.outer

theorem define {c d : Chain} {name : String} {v : Value} (h : c.define name v = .ok d) :
    c.Extends d := by
  unfold Chain.define at h
  split at h
  · cases h
  · cases h
    exact bind c name v

/-- Whatever happened in an inner scope, the scopes around it keep their names. -/
theorem pop {c d : Chain} {bindings : Bindings} (h : (c.push bindings).Extends d) :
    c.SameNames d.pop := by
  have houter := h.outer
  obtain ⟨inner, outer⟩ := d
  cases houter with
  | cons hinner hrest => exact .cons hinner hrest

end Extends

private theorem sameNames_modify {scopes : List Bindings} {name : String} {i : Nat}
    (hi : scopes.findIdx? (·.contains name) = some i) (v : Value) :
    List.Forall₂ Bindings.SameNames scopes (scopes.modify i (·.insert name v)) := by
  induction scopes generalizing i with
  | nil => simp at hi
  | cons scope scopes ih =>
      rw [List.findIdx?_cons] at hi
      split at hi
      next hname =>
        cases hi
        exact .cons (.insert (Std.TreeMap.mem_iff_contains.mpr hname) v)
          (Bindings.SameNames.forall₂_refl scopes)
      next =>
        obtain ⟨j, hj, rfl⟩ := Option.map_eq_some_iff.mp hi
        exact .cons (.refl scope) (ih hj)

theorem SameNames.set {c d : Chain} {name : String} {v : Value} (h : c.set name v = .ok d) :
    c.SameNames d := by
  unfold Chain.set at h
  split at h
  next hname =>
    cases h
    exact .cons (.insert (Std.TreeMap.mem_iff_contains.mpr hname) v)
      (Bindings.SameNames.forall₂_refl c.outer)
  next =>
    split at h
    next i hi =>
      cases h
      exact .cons (.refl c.inner) (sameNames_modify hi v)
    next => cases h

end Chain

namespace EvalM

/-- The state that a computation ends in, with a value or without. -/
def after (m : EvalM α) (run : Run) : Run :=
  match m run with
  | .ok _ run => run
  | .error _ run => run

theorem after_congr {m n : EvalM α} {run run' : Run} (h : m run = n run') :
    m.after run = n.after run' := by
  unfold after
  rw [h]

def Framed (m : EvalM α) : Prop :=
  ∀ run : Run, run.chain.Extends (m.after run).chain

theorem bind_eq_ok {m : EvalM α} {next : α → EvalM β} {run after : Run} {w : β}
    (h : (m >>= next) run = .ok w after) :
    ∃ v middle, m run = .ok v middle ∧ next v middle = .ok w after := by
  change EStateM.bind m next run = _ at h
  unfold EStateM.bind at h
  cases hm : m run with
  | ok v middle =>
      rw [hm] at h
      exact ⟨v, middle, rfl, h⟩
  | error stop middle =>
      rw [hm] at h
      cases h

theorem after_bind (m : EvalM α) (next : α → EvalM β) (run : Run) :
    (m >>= next).after run =
      match m run with
      | .ok v run => (next v).after run
      | .error _ run => run := by
  unfold after
  change (match EStateM.bind m next run with
    | .ok _ run => run
    | .error _ run => run) = _
  unfold EStateM.bind
  cases m run <;> rfl

theorem after_inside (bindings : Bindings) (m : EvalM α) (run : Run) :
    ((inside bindings m).after run).chain =
      (m.after { run with chain := run.chain.push bindings }).chain.pop := by
  unfold after inside
  cases m { run with chain := run.chain.push bindings } <;> rfl

theorem Framed.bind {m : EvalM α} {next : α → EvalM β}
    (hm : m.Framed) (hnext : ∀ v, (next v).Framed) : (m >>= next).Framed := by
  intro run
  have hfirst := hm run
  rw [after_bind]
  unfold after at hfirst
  cases hrun : m run with
  | ok v middle =>
      simp only [hrun] at hfirst
      exact hfirst.trans (hnext v middle)
  | error stop middle =>
      simpa only [hrun] using hfirst

theorem Framed.update {f : Chain → Except EvalError Chain}
    (hf : ∀ c d, f c = .ok d → c.Extends d) : (EvalM.update f).Framed := by
  intro run
  unfold after EvalM.update
  cases hchain : f run.chain with
  | ok d => exact hf run.chain d hchain
  | error e => exact .refl run.chain

theorem Framed.sameNames_inside {m : EvalM α} (hm : m.Framed) (bindings : Bindings)
    (run : Run) : run.chain.SameNames ((inside bindings m).after run).chain := by
  rw [after_inside]
  exact (hm { run with chain := run.chain.push bindings }).pop

theorem framed_closed : Closed @Framed where
  pure _ run := .refl run.chain
  bind := Framed.bind
  stop _ run := .refl run.chain
  look hnext _ run := hnext run.chain run
  define _ _ := Framed.update fun _ _ => Chain.Extends.define
  set _ _ := Framed.update fun _ _ h => (Chain.SameNames.set h).extends
  print _ run := .refl run.chain
  tell _ run := .refl run.chain
  inside bindings hm run := (hm.sameNames_inside bindings run).extends

end EvalM

theorem call_framed (fuel : Nat) (f : Function) (args : List Value) :
    (call fuel f args).Framed :=
  EvalM.framed_closed.call fuel f args

/-- The state once a wrong number of arguments has been told about. -/
def Run.counted (run : Run) (expected got : Nat) : Run :=
  if expected = got then run
  else { run with console := run.console.tell (.argumentCount expected got) }

@[simp] theorem Run.chain_counted (run : Run) (expected got : Nat) :
    (run.counted expected got).chain = run.chain := by
  unfold Run.counted
  split <;> rfl

theorem Eval.checkCount_apply (expected got : Nat) (run : Run) :
    (Eval.checkCount expected got : EvalM Unit) run = .ok () (run.counted expected got) := by
  unfold Eval.checkCount Run.counted
  split <;> rfl

/-- A call of a lambda either finds no room for its scope, or counts the arguments
and runs the body inside. -/
theorem Eval.lambda_apply (call : Caller) (params : List String)
    (values args : List Value) (run : Run) :
    Eval.lambda call params values args run =
      if run.chain.hasRoom then
        EvalM.inside (.ofParams params args) (Eval.body call values)
          (run.counted params.length args.length)
      else .error (.failed .stackOverflow) run := by
  change (if run.chain.hasRoom then _ else _ : EvalM Value) run = _
  by_cases hroom : run.chain.hasRoom
  · simp only [hroom, if_true]
    change EStateM.bind (Eval.checkCount params.length args.length) _ run = _
    unfold EStateM.bind
    rw [Eval.checkCount_apply]
    rfl
  · simp only [hroom]
    rfl

/-- A call of a lambda leaves the names of its caller's scope as they were. -/
theorem call_lambda_sameNames (fuel : Nat) (id : Identity) (params : List String)
    (values args : List Value) (run : Run) :
    run.chain.SameNames ((call fuel (.lambda id params values) args).after run).chain := by
  cases fuel with
  | zero => exact .refl run.chain
  | succ fuel =>
      have hbody : (Eval.body (call fuel) values).Framed :=
        EvalM.framed_closed.body (call_framed fuel) values
      have hinside := hbody.sameNames_inside (.ofParams params args)
      have happly := Eval.lambda_apply (call fuel) params values args run
      change run.chain.SameNames
        ((Eval.lambda (call fuel) params values args).after run).chain
      by_cases hroom : run.chain.hasRoom
      · rw [if_pos hroom] at happly
        rw [EvalM.after_congr happly]
        simpa using hinside (run.counted params.length args.length)
      · rw [if_neg hroom] at happly
        have hafter : (Eval.lambda (call fuel) params values args).after run = run := by
          unfold EvalM.after
          rw [happly]
        rw [hafter]
        exact .refl run.chain

end MiniLisp
