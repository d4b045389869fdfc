import MiniLisp.Scope.Chain

/-!
# Chains of names

A name that is bound to a name stands for whatever that name stands for.  To follow a
chain of names takes one lookup for each name on the way and one more for the name at the
end, and the number of lookups is limited.
-/

namespace MiniLisp
namespace Chain

/-- The name that a name is bound to. -/
def alias? (c : Chain) (name : String) : Option String :=
  match c.get? name with
  | some (.function (.deferred _ next)) => some next
  | _ => none

/-- From one name to another over the given number of bindings. -/
inductive Leads (c : Chain) : Nat → String → String → Prop
  | here (x : String) : Leads c 0 x x
  | hop {n : Nat} {x y z : String} : c.alias? x = some y → Leads c n y z → Leads c (n + 1) x z

variable {c : Chain} {x y : String}

theorem alias?_eq_some :
    c.alias? x = some y ↔ ∃ id, c.get? x = some (.function (.deferred id y)) := by
  unfold alias?
  split
  next id next hx => simp [hx]
  next hx =>
    simp only [reduceCtorEq, false_iff, not_exists]
    intro id
    exact hx id y

theorem follow_of_alias (h : c.alias? x = some y) (hops : Nat) :
    c.follow (hops + 1) x = c.follow hops y := by
  obtain ⟨id, hx⟩ := alias?_eq_some.mp h
  rw [follow, hx]

/-- One lookup is enough for a name that is not bound to a name. -/
theorem follow_of_end (h : c.alias? x = none) {hops : Nat} (hhops : 0 < hops) :
    c.follow hops x = c.follow 1 x := by
  obtain ⟨extra, rfl⟩ := Nat.exists_eq_succ_of_ne_zero (Nat.ne_of_gt hhops)
  unfold alias? at h
  unfold follow
  split at h
  next => cases h
  next hx =>
    split
    next => rfl
    next id next hx' => exact absurd hx' (hx id next)
    next => rfl
    next => rfl

theorem follow_of_unbound (hx : c.get? x = none) : c.follow 1 x = .unbound x := by
  rw [follow, hx]

theorem follow_of_data {v : Value} (hx : c.get? x = some v) (hv : v.isFunction = false) :
    c.follow 1 x = .data v := by
  rw [follow, hx]
  cases v with
  | function f => cases hv
  | _ => rfl

theorem follow_of_function {f : Function} (hend : c.alias? x = none)
    (hx : c.get? x = some (.function f)) : c.follow 1 x = .function f := by
  rw [follow, hx]
  cases f with
  | deferred id y => cases hend.symm.trans (alias?_eq_some.mpr ⟨id, hx⟩)
  | _ => rfl

theorem Leads.follow {n : Nat} (h : c.Leads n x y) (hops : Nat) :
    c.follow (n + hops) x = c.follow hops y := by
  induction h with
  | here x => rw [Nat.zero_add]
  | hop hx _ ih => rw [Nat.add_right_comm, follow_of_alias hx, ih]

theorem Leads.follow_of_end {n hops : Nat} (h : c.Leads n x y) (hy : c.alias? y = none)
    (hn : n < hops) : c.follow hops x = c.follow 1 y := by
  obtain ⟨extra, rfl⟩ := Nat.exists_eq_add_of_lt hn
  rw [Nat.add_assoc, h.follow, Chain.follow_of_end hy (by omega)]

/-- A name stands for what the name it is bound to stands for. -/
theorem Leads.follow_eq_of_alias {z : String} {n hops : Nat} (h : c.Leads n x y)
    (hy : c.alias? y = none) (hx : c.alias? x = some z) (hn : n < hops) :
    c.follow hops x = c.follow hops z := by
  cases h with
  | here => cases hy.symm.trans hx
  | hop hx' hz =>
      cases hx.symm.trans hx'
      rw [(Leads.hop hx hz).follow_of_end hy hn, hz.follow_of_end hy (by omega)]

/-- A chain of names either goes on for as long as given or comes to an end before. -/
theorem leads_or_ends (c : Chain) (n : Nat) (x : String) :
    (∃ y, c.Leads n x y) ∨ ∃ k < n, ∃ y, c.Leads k x y ∧ c.alias? y = none := by
  induction n generalizing x with
  | zero => exact .inl ⟨x, .here x⟩
  | succ n ih =>
      cases hx : c.alias? x with
      | none => exact .inr ⟨0, by omega, x, .here x, hx⟩
      | some y =>
          rcases ih y with ⟨z, hz⟩ | ⟨k, hk, z, hz, hend⟩
          · exact .inl ⟨z, .hop hx hz⟩
          · exact .inr ⟨k + 1, by omega, z, .hop hx hz, hend⟩

theorem Leads.exists_alias {n : Nat} (h : c.Leads n x y) (hn : 0 < n) :
    ∃ z, c.alias? x = some z := by
  cases h with
  | here => omega
  | hop hx _ => exact ⟨_, hx⟩

theorem Leads.follow_eq_tooLong {n : Nat} (h : c.Leads n x y) : c.follow n x = .tooLong :=
  h.follow 0

/-- One lookup more is of no use, unless it finds the end of the chain. -/
theorem follow_succ {n : Nat} (h : ∀ y, c.Leads n x y → c.alias? y ≠ none) :
    c.follow (n + 1) x = c.follow n x := by
  rcases c.leads_or_ends n x with ⟨y, hy⟩ | ⟨k, hk, y, hy, hend⟩
  · obtain ⟨z, hz⟩ := Option.ne_none_iff_exists'.mp (h y hy)
    rw [hy.follow_eq_tooLong, hy.follow, follow_of_alias hz]
    rfl
  · rw [hy.follow_of_end hend hk, hy.follow_of_end hend (by omega)]

end Chain
end MiniLisp
