import MiniLisp.Proofs.Interpreter.Depth
import MiniLisp.Proofs.Interpreter.Sequence
import MiniLisp.Proofs.Session.AliasChain

/-!
# Reading a name and calling it

A name is read by following it to what it stands for.  A call without arguments looks up
the name by itself, and if it has found a name, has that name followed.  It can therefore
look up one name more than reading can.  The two come to the same, except for a chain of
names whose end is just out of reach of reading.
-/

namespace MiniLisp

theorem maxDepth_pos : 0 < maxDepth := by
  decide

namespace Eval

/-- Call what a chain of names has led to. -/
def reach (call : Caller) (target : Target) (args : List Value) : EvalM Value :=
  match target with
  | .data v => return v
  | .function f => call f args
  | .unbound name => EvalM.fail (.notBound name)
  | .tooLong => EvalM.fail .stackOverflow

section NameCall

variable {call : Caller} {x : String} {run : Run}

theorem deferred_eq_reach (args : List Value) :
    Eval.deferred call x args run = reach call (run.chain.follow maxDepth x) args run := by
  unfold Eval.deferred
  rw [EvalM.chain_bind]
  cases run.chain.follow maxDepth x <;> rfl

theorem callNamed_nil_of_alias {id : Identity} {y : String}
    (hx : run.chain.get? x = some (.function (.deferred id y))) :
    callNamed call x [] run = call (.deferred id y) [] run := by
  unfold callNamed
  rw [EvalM.chain_bind, Chain.lookup, hx]
  rfl

theorem callNamed_nil_of_end (hx : run.chain.alias? x = none) :
    callNamed call x [] run = reach call (run.chain.follow 1 x) [] run := by
  unfold callNamed
  rw [EvalM.chain_bind, Chain.lookup, Chain.follow]
  unfold Chain.alias? at hx
  cases hget : run.chain.get? x with
  | none => rfl
  | some v =>
      rw [hget] at hx
      cases v with
      | function f =>
          cases f with
          | deferred id y => cases hx
          | _ => rfl
      | _ => rfl

end NameCall
end Eval

section Fuel

variable {x : String} {run : Run} (fuel : Nat) (id : Identity)

theorem force_deferred_eq_reach :
    force (fuel + 1) (.function (.deferred id x)) run =
      Eval.reach (call fuel) (run.chain.follow maxDepth x) [] run :=
  Eval.deferred_eq_reach []

/-- A call looks up one name more than reading does. -/
theorem call_form_of_alias {y : String} (hx : run.chain.alias? x = some y) :
    call (fuel + 2) (.thunk id (.call x [])) [] run =
      Eval.reach (call fuel) (run.chain.follow (maxDepth + 1) x) [] run := by
  obtain ⟨j, hget⟩ := Chain.alias?_eq_some.mp hx
  rw [Chain.follow_of_alias hx]
  exact (Eval.callNamed_nil_of_alias hget).trans (Eval.deferred_eq_reach [])

theorem call_form_of_end (hx : run.chain.alias? x = none) :
    call (fuel + 1) (.thunk id (.call x [])) [] run =
      Eval.reach (call fuel) (run.chain.follow maxDepth x) [] run := by
  rw [Chain.follow_of_end hx maxDepth_pos]
  exact Eval.callNamed_nil_of_end hx

end Fuel

namespace Interpreter

section Cap

variable {i : Interpreter} {e : ScopeId} {x y : String}
  (hy : (i.forest.chain e).Leads maxDepth x y) (fuel : Nat) (id j : Identity)
include hy

theorem read_of_leads (hi : i.forest.WellFormed) (he : e < i.forest.next) :
    i.within e (force (fuel + 1) (.function (.deferred id x))) =
      (.error (.failed .stackOverflow), i) := by
  apply within_of_error hi he
  rw [force_deferred_eq_reach, hy.follow_eq_tooLong]
  rfl

theorem call_of_leads (hend : (i.forest.chain e).alias? y = none) :
    i.within e (call (fuel + 2) (.thunk j (.call x [])) []) =
      i.within e (force (fuel + 1) (.function (.deferred id y))) := by
  obtain ⟨z, hx⟩ := hy.exists_alias maxDepth_pos
  apply within_congr
  rw [call_form_of_alias fuel j hx, force_deferred_eq_reach, hy.follow_of_end hend (by omega),
    Chain.follow_of_end hend maxDepth_pos]

end Cap

/-- To read a name and to call it without arguments come to the same, unless just as many
names as may be looked up lie before the one that is not bound to a name.  Such a name
cannot be read, while a call of it does what reading the last name does. -/
theorem read_eq_call (i : Interpreter) (hi : i.forest.Reachable) (e : ScopeId)
    (he : e < i.forest.next) (x : String) (id j : Identity) :
    let c := i.forest.chain e
    let read fuel name := i.within e (force fuel (.function (.deferred id name)))
    let form fuel := i.within e (call fuel (.thunk j (.call x [])) [])
    ((∀ y, c.Leads maxDepth x y → c.alias? y ≠ none) →
        ∃ extra ≤ 1, ∀ fuel, form (fuel + 1 + extra) = read (fuel + 1) x) ∧
      ∀ y, c.Leads maxDepth x y → c.alias? y = none → ∀ fuel,
        read (fuel + 1) x = (.error (.failed .stackOverflow), i) ∧
          form (fuel + 2) = read (fuel + 1) y := by
  intro c read form
  constructor
  · intro hcap
    cases hx : c.alias? x with
    | none =>
        refine ⟨0, by omega, fun fuel => within_congr ?_⟩
        rw [call_form_of_end fuel j hx, force_deferred_eq_reach]
    | some y =>
        -- The call hands over to the name it finds, which takes a call of its own.
        refine ⟨1, by omega, fun fuel => within_congr ?_⟩
        rw [call_form_of_alias fuel j hx, force_deferred_eq_reach, Chain.follow_succ hcap]
  · intro y hy hend fuel
    exact ⟨read_of_leads hy fuel id hi.wellFormed he, call_of_leads hy fuel id j hend⟩

/-- One name fewer, and both find the number. -/
theorem read_eq_call_below_cap :
    let i := Session.withAliases (maxDepth - 1)
    let x := "a" ++ toString (maxDepth - 1)
    i.forest.Reachable ∧ (i.forest.chain 0).Leads (maxDepth - 1) x "a0" ∧
      ∃ extra ≤ 1, ∀ fuel, i.within 0 (call (fuel + 1 + extra) (.thunk 1 (.call x [])) []) =
        i.within 0 (force (fuel + 1) (.function (.deferred 0 x))) := by
  intro i x
  have hi : i.forest.Reachable := .addRoot _ .empty
  have hleads := Session.leads_withAliases (maxDepth - 1)
  have hend := Session.alias?_withAliases (maxDepth - 1)
  obtain ⟨hagree, _⟩ := read_eq_call i hi 0 Nat.zero_lt_one x 0 1
  refine ⟨hi, hleads, hagree ?_⟩
  intro y hy
  have hlt : maxDepth - 1 < maxDepth := Nat.sub_lt maxDepth_pos Nat.zero_lt_one
  have hfound := hleads.follow_of_end hend hlt
  rw [Session.follow_withAliases] at hfound
  cases hy.follow_eq_tooLong.symm.trans hfound

/-- A number is just out of reach of reading, and a call finds it. -/
theorem read_ne_call_at_cap :
    let i := Session.withAliases maxDepth
    let x := "a" ++ toString maxDepth
    i.forest.Reachable ∧ ∀ fuel,
      i.within 0 (force (fuel + 1) (.function (.deferred 0 x))) =
        (.error (.failed .stackOverflow), i) ∧
      i.within 0 (call (fuel + 2) (.thunk 1 (.call x [])) []) = (.ok (.int 7), i) := by
  intro i x
  have hi : i.forest.Reachable := .addRoot _ .empty
  have hleads := Session.leads_withAliases maxDepth
  have hend := Session.alias?_withAliases maxDepth
  refine ⟨hi, fun fuel => ⟨read_of_leads hleads fuel 0 hi.wellFormed Nat.zero_lt_one, ?_⟩⟩
  refine (call_of_leads hleads fuel 0 1 hend).trans
    (within_of_ok hi.wellFormed Nat.zero_lt_one ?_)
  rw [force_deferred_eq_reach, Chain.follow_of_end hend maxDepth_pos,
    Session.follow_withAliases]
  rfl

end Interpreter
end MiniLisp
