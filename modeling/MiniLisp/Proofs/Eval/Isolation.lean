import MiniLisp.Proofs.Eval.Frame

/-!
# Two runs on chains with the same bindings

Two runs of one call on chains with the same bindings go the same way: they end
with the same value or error, write the same, and leave chains with the same
bindings.  What was printed or told before makes no difference to them.

Bindings are compared by their contents.  Two maps with the same contents may have
come about in different ways, and no run can tell them apart.
-/

namespace MiniLisp

/-! ## Chains with the same bindings -/

/-- Scope by scope, two chains bind the same names to the same values. -/
def Chain.Alike (c d : Chain) : Prop :=
  List.Forall₂ Std.TreeMap.Equiv c.scopes d.scopes

namespace Chain.Alike

variable {c d : Chain}

theorem sameView (h : c.Alike d) : c.SameView d := by
  constructor
  · intro name
    unfold Chain.get?
    unfold Chain.Alike at h
    generalize c.scopes = cs at h
    generalize d.scopes = ds at h
    induction h with
    | nil => rfl
    | cons hscope _ ih => rw [List.findSome?_cons, List.findSome?_cons, hscope.getElem?_eq, ih]
  · have hlength : c.outer.length + 1 = d.outer.length + 1 := h.length_eq
    exact Nat.succ.inj hlength

theorem inner (h : c.Alike d) : c.inner.Equiv d.inner := by
  cases h with
  | cons hinner _ => exact hinner

theorem outer (h : c.Alike d) : List.Forall₂ Std.TreeMap.Equiv c.outer d.outer := by
  cases h with
  | cons _ houter => exact houter

theorem containsLocal (h : c.Alike d) (name : String) :
    c.containsLocal name = d.containsLocal name :=
  h.inner.contains_eq

theorem bind (h : c.Alike d) (name : String) (v : Value) :
    (c.bind name v).Alike (d.bind name v) :=
  .cons (h.inner.insert name v) h.outer

theorem push (h : c.Alike d) (bindings : Bindings) :
    (c.push bindings).Alike (d.push bindings) :=
  .cons .rfl h

theorem pop (h : c.Alike d) : c.pop.Alike d.pop := by
  have houter := h.outer
  unfold Chain.pop
  cases hc : c.outer with
  | nil =>
      rw [hc] at houter
      cases hd : d.outer with
      | nil => exact h
      | cons scope rest =>
          rw [hd] at houter
          cases houter
  | cons scope rest =>
      rw [hc] at houter
      cases hd : d.outer with
      | nil =>
          rw [hd] at houter
          cases houter
      | cons scope' rest' =>
          rw [hd] at houter
          exact houter

end Chain.Alike

/-- Two attempts at changing chains both fail in the same way, or both give chains
with the same bindings. -/
inductive Chain.ChangeAlike : Except EvalError Chain → Except EvalError Chain → Prop
  | ok {c d : Chain} : c.Alike d → ChangeAlike (.ok c) (.ok d)
  | error (e : EvalError) : ChangeAlike (.error e) (.error e)

namespace Chain.Alike

variable {c d : Chain}

theorem define (h : c.Alike d) (name : String) (v : Value) :
    ChangeAlike (c.define name v) (d.define name v) := by
  unfold Chain.define
  rw [h.containsLocal name]
  split
  · exact .error _
  · exact .ok (h.bind name v)

private theorem findIdx?_eq {cs ds : List Bindings}
    (h : List.Forall₂ Std.TreeMap.Equiv cs ds) (name : String) :
    cs.findIdx? (·.contains name) = ds.findIdx? (·.contains name) := by
  induction h with
  | nil => rfl
  | cons hscope _ ih => rw [List.findIdx?_cons, List.findIdx?_cons, hscope.contains_eq, ih]

private theorem modify {cs ds : List Bindings} (h : List.Forall₂ Std.TreeMap.Equiv cs ds)
    (i : Nat) (name : String) (v : Value) :
    List.Forall₂ Std.TreeMap.Equiv
      (cs.modify i (·.insert name v)) (ds.modify i (·.insert name v)) := by
  induction h generalizing i with
  | nil => cases i <;> exact .nil
  | cons hscope hrest ih =>
      cases i with
      | zero => exact .cons (hscope.insert name v) hrest
      | succ i => exact .cons hscope (ih i)

theorem set (h : c.Alike d) (name : String) (v : Value) :
    ChangeAlike (c.set name v) (d.set name v) := by
  unfold Chain.set
  rw [h.containsLocal name, findIdx?_eq h.outer name]
  split
  · exact .ok (h.bind name v)
  · split
    next i _ => exact .ok (.cons h.inner (modify h.outer i name v))
    next => exact .error _

end Chain.Alike

/-! ## Two runs side by side -/

/-- What was written before, followed by what was written since. -/
def Console.append (before since : Console) : Console :=
  ⟨before.output ++ since.output, before.events ++ since.events⟩

namespace Console

theorem append_empty (k : Console) : k.append .empty = k := by
  simp [append, empty]

theorem print_append (k written : Console) (line : String) :
    (k.append written).print line = k.append (written.print line) := by
  simp [append, print, String.append_assoc]

theorem tell_append (k written : Console) (e : Event) :
    (k.append written).tell e = k.append (written.tell e) := by
  simp only [append, tell, Array.push_append]

end Console

/-- Two runs have come to chains with the same bindings, and have written the same
since their consoles were `k` and `l`. -/
structure Run.Alike (k l : Console) (r s : Run) : Prop where
  chain : r.chain.Alike s.chain
  console : ∃ written, r.console = k.append written ∧ s.console = l.append written

/-- Two runs have ended in the same way. -/
inductive Run.EndAlike (k l : Console) :
    EStateM.Result Stop Run α → EStateM.Result Stop Run α → Prop
  | ok (v : α) {r s : Run} : r.Alike k l s → EndAlike k l (.ok v r) (.ok v s)
  | error (stop : Stop) {r s : Run} :
      r.Alike k l s → EndAlike k l (.error stop r) (.error stop s)

namespace EvalM

/-- Runs of the computation that start alike end alike. -/
def Isolated (m : EvalM α) : Prop :=
  ∀ k l r s, Run.Alike k l r s → Run.EndAlike k l (m r) (m s)

theorem Isolated.bind {m : EvalM α} {next : α → EvalM β}
    (hm : m.Isolated) (hnext : ∀ v, (next v).Isolated) : (m >>= next).Isolated := by
  intro k l r s halike
  have hfirst := hm k l r s halike
  change Run.EndAlike k l (EStateM.bind m next r) (EStateM.bind m next s)
  unfold EStateM.bind
  generalize m r = x at hfirst
  generalize m s = y at hfirst
  cases hfirst with
  | ok v hmiddle => exact hnext v k l _ _ hmiddle
  | error stop hmiddle => exact .error stop hmiddle

theorem Isolated.look {next : Chain → EvalM α} (hnext : ∀ c, (next c).Isolated)
    (hview : ∀ c d, c.SameView d → next c = next d) : (EvalM.chain >>= next).Isolated := by
  intro k l r s halike
  change Run.EndAlike k l (next r.chain r) (next s.chain s)
  rw [hview r.chain s.chain halike.chain.sameView]
  exact hnext s.chain k l r s halike

theorem Isolated.update {f : Chain → Except EvalError Chain}
    (hf : ∀ c d, c.Alike d → Chain.ChangeAlike (f c) (f d)) : (EvalM.update f).Isolated := by
  intro k l r s halike
  have hchange := hf r.chain s.chain halike.chain
  unfold EvalM.update
  generalize f r.chain = x at hchange
  generalize f s.chain = y at hchange
  cases hchange with
  | ok hchain => exact .ok () ⟨hchain, halike.console⟩
  | error e => exact .error (.failed e) halike

theorem Isolated.inside {m : EvalM α} (bindings : Bindings) (hm : m.Isolated) :
    (EvalM.inside bindings m).Isolated := by
  intro k l r s halike
  have hbody := hm k l { r with chain := r.chain.push bindings }
    { s with chain := s.chain.push bindings } ⟨halike.chain.push bindings, halike.console⟩
  unfold EvalM.inside
  generalize m { r with chain := r.chain.push bindings } = x at hbody
  generalize m { s with chain := s.chain.push bindings } = y at hbody
  cases hbody with
  | ok v hend => exact .ok v ⟨hend.chain.pop, hend.console⟩
  | error stop hend => exact .error stop ⟨hend.chain.pop, hend.console⟩

theorem Isolated.write (f : Console → Console)
    (hf : ∀ k written : Console, f (k.append written) = k.append (f written)) :
    (modify fun run : Run => { run with console := f run.console } : EvalM Unit).Isolated := by
  intro k l r s ⟨hchain, written, hr, hs⟩
  refine .ok PUnit.unit ⟨hchain, f written, ?_, ?_⟩
  · change f r.console = k.append (f written)
    rw [hr, hf]
  · change f s.console = l.append (f written)
    rw [hs, hf]

theorem isolated_closed : Closed @Isolated where
  pure v _ _ _ _ halike := .ok v halike
  bind := Isolated.bind
  stop stop _ _ _ _ halike := .error stop halike
  look := Isolated.look
  define name v := Isolated.update fun _ _ h => h.define name v
  set name v := Isolated.update fun _ _ h => h.set name v
  print line := Isolated.write (·.print line) fun k written => k.print_append written line
  tell event := Isolated.write (·.tell event) fun k written => k.tell_append written event
  inside := Isolated.inside

end EvalM

end MiniLisp
