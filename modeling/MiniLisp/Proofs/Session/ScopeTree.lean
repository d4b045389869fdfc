import MiniLisp.Proofs.Scope.Binder
import MiniLisp.Session.Basic

/-!
# What a change means to every scope

Scopes are shared: a scope that is changed is changed for all those inside it.  The laws
here say for each operation on one scope what every other scope answers afterwards.  An
operation that fails is refused, and then all answers stay as they were.
-/

namespace MiniLisp
namespace Forest

section Child

variable {f : Forest} (hf : f.WellFormed) {e : ScopeId} (he : e < f.next)
include hf he

theorem WellFormed.get?_child_next (name : String) :
    (f.child e).get? f.next name = f.get? e name := by
  unfold get?
  rw [hf.chain_child he]
  simp [Chain.get?, Chain.scopes, Chain.push]

omit he in
theorem WellFormed.get?_child {s : ScopeId} (hs : s < f.next) (name : String) :
    (f.child e).get? s name = f.get? s name := by
  have hpath : (f.child e).path s = f.path s := by
    rw [path, Forest.child, ancestorsOf_push, if_neg (Nat.ne_of_lt hs), path]
  have hscopes : (f.path s).map (f.child e).bindingsOf = (f.path s).map f.bindingsOf := by
    apply List.map_inj_left.mpr
    intro p hp
    exact bindingsOf_child f e (hf.lt_next_of_mem_path hs hp)
  unfold get? Chain.get?
  rw [scopes_chain, scopes_chain, hpath, hscopes]

end Child
end Forest

namespace Session

/-- The commands that bind a name in their scope or overwrite it from there, and the one
that adds a scope. -/
inductive Command.Changes (name : String) : Command → Prop
  | define (value : HostValue) : Changes name (.define name value)
  | set (value : HostValue) : Changes name (.set name value)
  | child : Changes name .child

/-- If an action fails, the forest is as it was. -/
def Keeps (act : Action Reply) : Prop :=
  ∀ s failure, (act.run s).1 = .failed failure →
    (act.run s).2.interpreter.forest = s.interpreter.forest

/-- The session in which the given identity is the next that is free. -/
def withFresh (s : Session) (fresh : Identity) : Session :=
  { s with interpreter := { s.interpreter with fresh } }

theorem building_run (scope : ScopeId) (build : Chain → HostValue.Build α)
    (act : α → Action Reply) (s : Session) :
    (building scope build act).run s =
      match (build (s.interpreter.forest.chain scope)).run s.interpreter.fresh with
      | .error e => (refuse e, s)
      | .ok (a, fresh) => (act a).run (s.withFresh fresh) := by
  change (match (build (s.interpreter.forest.chain scope)).run s.interpreter.fresh with
    | .error e => _
    | .ok (a, fresh) => _ : Action Reply) s = _
  cases (build (s.interpreter.forest.chain scope)).run s.interpreter.fresh <;> rfl

theorem keeps_building {scope : ScopeId} {build : Chain → HostValue.Build α}
    {act : α → Action Reply} (hact : ∀ a, Keeps (act a)) : Keeps (building scope build act) := by
  intro s failure hfailed
  rw [building_run] at hfailed ⊢
  split at hfailed
  next => rfl
  next a fresh _ => exact hact a (s.withFresh fresh) failure hfailed

theorem keeps_store (scope : ScopeId) (value : HostValue)
    (put : Forest → Value → Except EvalError Forest) : Keeps (store scope value put) := by
  apply keeps_building
  intro v s failure hfailed
  cases hput : put s.interpreter.forest v with
  | error e =>
      simp only [StateT.run_bind, StateT.run_get, pure_bind, hput]
      rfl
  | ok forest =>
      simp only [StateT.run_bind, StateT.run_get, pure_bind, hput] at hfailed
      cases hfailed

theorem keeps_descend (scope : ScopeId) (count : Nat) : Keeps (descend scope count) := by
  intro s failure hfailed
  unfold descend at hfailed ⊢
  cases hnest : nest count scope s.interpreter.forest with
  | error e =>
      simp only [StateT.run_bind, StateT.run_get, pure_bind, hnest]
      rfl
  | ok result =>
      simp only [StateT.run_bind, StateT.run_get, pure_bind, hnest] at hfailed
      cases hfailed

theorem keeps_of_changes {name : String} {command : Command} (h : command.Changes name)
    (fuel : Nat) (files : Files) (handle : Nat) (scope : ScopeId) :
    Keeps (perform fuel files handle scope command) := by
  cases h with
  | define value => exact keeps_store scope value (·.define scope name ·)
  | set value => exact keeps_store scope value (·.set scope name ·)
  | child => exact keeps_descend scope 1

/-- A change that is refused leaves the forest of the session as it was. -/
theorem forest_answer_of_failed {s : Session} {fuel : Nat} {files : Files} {handle : Nat}
    {scope : ScopeId} (hscope : s.handles[handle]? = some (some scope)) {name : String}
    {command : Command} (hcommand : command.Changes name) {failure : Failure}
    (hfailed : (s.answer fuel files ⟨handle, command⟩).1.reply = .failed failure) :
    (s.answer fuel files ⟨handle, command⟩).2.interpreter.forest = s.interpreter.forest := by
  simp only [answer, hscope] at hfailed ⊢
  exact keeps_of_changes hcommand fuel files handle scope s failure hfailed

/-- In a forest that has come about, a name can be defined in a scope `e` if `e` does not
bind it, and then it has the new value for those scopes that now find it in `e` first.  It
can be set from `e` if `e` has a value for it, and then it has the new value for those
scopes that find it where `e` finds it.  A scope that is added inside `e` answers as `e`
does.  All other answers stay as they were, and all of them if a session refuses the
change. -/
theorem scope_tree_laws (f : Forest) (hf : f.Reachable) (e : ScopeId) (he : e < f.next)
    (n : String) (v : Value) :
    (((∃ g, f.define e n v = .ok g) ↔ n ∉ f.bindingsOf e) ∧
        ∀ g, f.define e n v = .ok g → ∀ s m, g.get? s m =
          if m = n ∧ g.binder? s n = some e then some v else f.get? s m) ∧
      (((∃ g, f.set e n v = .ok g) ↔ ∃ w, f.get? e n = some w) ∧
        ∀ g, f.set e n v = .ok g → ∀ s m, g.get? s m =
          if m = n ∧ f.binder? s n = f.binder? e n then some v else f.get? s m) ∧
      (∀ g, f.addChild e = .ok g →
        (∀ m, g.get? f.next m = f.get? e m) ∧ ∀ s < f.next, ∀ m, g.get? s m = f.get? s m) ∧
      ∀ (session : Session) (fuel : Nat) (files : Files) (handle : Nat) (command : Command)
        (failure : Failure), session.interpreter.forest = f →
        session.handles[handle]? = some (some e) → command.Changes n →
        (session.answer fuel files ⟨handle, command⟩).1.reply = .failed failure →
        ∀ s m, (session.answer fuel files ⟨handle, command⟩).2.interpreter.forest.get? s m =
          f.get? s m := by
  have hwell := hf.wellFormed
  refine ⟨⟨?_, ?_⟩, ⟨?_, ?_⟩, ?_, ?_⟩
  · simp [Forest.define_eq_ok]
  · intro g hg s m
    obtain ⟨_, rfl⟩ := Forest.define_eq_ok.mp hg
    exact Forest.get?_put n v he s m
  · have hbound : (∃ p, f.binder? e n = some p) ↔ ∃ w, f.get? e n = some w := by
      rw [← Option.ne_none_iff_exists', ← Option.ne_none_iff_exists', Ne, Ne,
        Forest.get?_eq_none_iff]
    simpa [Forest.set_eq_ok] using hbound
  · intro g hg s m
    obtain ⟨p, hp, rfl⟩ := Forest.set_eq_ok.mp hg
    obtain ⟨hpath, hname⟩ := Forest.mem_of_binder? hp
    have hlt : p < f.next := hwell.lt_next_of_mem_path he hpath
    rw [Forest.get?_put n v hlt, Forest.binder?_put_of_mem n v hlt hname, hp]
  · intro g hg
    obtain ⟨_, rfl⟩ := Forest.addChild_eq_ok.mp hg
    exact ⟨hwell.get?_child_next he, fun s hs => hwell.get?_child hs⟩
  · rintro session fuel files handle command failure rfl hscope hcommand hfailed s m
    rw [forest_answer_of_failed hscope hcommand hfailed]

/-- A root binds a name, and there are a scope inside it, one inside that, and one beside
them that hides the name. -/
theorem scope_tree_laws_siblings :
    let seven : Value := .int 7
    let root := Forest.empty.addRoot ((∅ : Bindings).insert "x" (.int 1))
    let f := (((root.child 0).child 1).child 0).put 3 "x" (.int 3)
    let session : Session := ⟨{ Interpreter.new .standard with forest := f }, #[some 0]⟩
    let refused := session.answer 0 ⟨[]⟩ ⟨0, .define "x" (.data seven)⟩
    f.Reachable ∧
      (∃ g, f.define 1 "x" seven = .ok g ∧ g.get? 2 "x" = some seven ∧
        g.get? 0 "x" = f.get? 0 "x" ∧ g.get? 3 "x" = f.get? 3 "x") ∧
      (∃ g, f.set 2 "x" seven = .ok g ∧ g.get? 0 "x" = some seven ∧
        g.get? 1 "x" = some seven ∧ g.get? 3 "x" = f.get? 3 "x") ∧
      refused.1.reply = .failed (.eval (.failed (.alreadyDefined "x"))) ∧
      refused.2.interpreter.forest.get? 2 "x" = f.get? 2 "x" := by
  intro seven root f session refused
  have hroot : root.Reachable := .addRoot _ .empty
  have hscopes : (((root.child 0).child 1).child 0).Reachable :=
    .addChild (.addChild (.addChild hroot (e := 0) (by decide) rfl)
      (e := 1) (by decide) rfl) (e := 0) (by decide) rfl
  have hf : f.Reachable := .bind 3 "x" (.int 3) hscopes
  have hat := fun e he => scope_tree_laws f hf e he "x" seven
  obtain ⟨⟨_, hdefine⟩, _, _, _⟩ := hat 1 (by decide)
  obtain ⟨_, ⟨_, hset⟩, _, _⟩ := hat 2 (by decide)
  obtain ⟨_, _, _, hrefused⟩ := hat 0 (by decide)
  have hdefined : f.define 1 "x" seven = .ok (f.put 1 "x" seven) :=
    Forest.define_eq_ok.mpr ⟨by decide +kernel, rfl⟩
  have hfound : f.set 2 "x" seven = .ok (f.put 0 "x" seven) :=
    Forest.set_eq_ok.mpr ⟨0, by decide +kernel, rfl⟩
  refine ⟨hf, ⟨_, hdefined, ?_, ?_, ?_⟩, ⟨_, hfound, ?_, ?_, ?_⟩, rfl, ?_⟩
  · exact (hdefine _ hdefined 2 "x").trans (if_pos (by decide +kernel))
  · exact (hdefine _ hdefined 0 "x").trans (if_neg (by decide +kernel))
  · exact (hdefine _ hdefined 3 "x").trans (if_neg (by decide +kernel))
  · exact (hset _ hfound 0 "x").trans (if_pos (by decide +kernel))
  · exact (hset _ hfound 1 "x").trans (if_pos (by decide +kernel))
  · exact (hset _ hfound 3 "x").trans (if_neg (by decide +kernel))
  · exact hrefused session 0 ⟨[]⟩ 0 _ _ rfl rfl (.define _) rfl 2 "x"

end Session
end MiniLisp
