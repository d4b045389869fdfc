import MiniLisp.Proofs.Scope.Overwrite

/-!
# A chain with an empty scope in it

An empty scope hides no name, so that every name has the same value with it and
without it.  Overwriting goes past it as well: the scope that has the name is the
same one.  Only the number of scopes tells the two chains apart.
-/

namespace MiniLisp

/-- The first list is the second with an empty scope in it, behind as many scopes as
the number says. -/
inductive Padded : Nat → List Bindings → List Bindings → Prop
  | here {scopes : List Bindings} : scopes ≠ [] → Padded 0 (∅ :: scopes) scopes
  | inside {n : Nat} {cs ds : List Bindings} (scope : Bindings) :
      Padded n cs ds → Padded (n + 1) (scope :: cs) (scope :: ds)

namespace Padded

variable {n : Nat} {cs ds : List Bindings}

theorem findSome? (h : Padded n cs ds) (name : String) :
    cs.findSome? (·[name]?) = ds.findSome? (·[name]?) := by
  induction h with
  | here _ => simp
  | inside scope _ ih => rw [List.findSome?_cons, List.findSome?_cons, ih]

theorem length_eq (h : Padded n cs ds) : cs.length = ds.length + 1 := by
  induction h with
  | here _ => rfl
  | inside scope _ ih => simp [ih]

theorem ne_nil (h : Padded n cs ds) : ds ≠ [] := by
  cases h with
  | here hne => exact hne
  | inside scope _ => exact List.cons_ne_nil _ _

/-- Overwriting succeeds in both lists or in none, and leaves the empty scope where it
was. -/
theorem overwrite (h : Padded n cs ds) (name : String) (v : Value) :
    (∃ cs' ds', Bindings.overwrite name v cs = some cs' ∧
        Bindings.overwrite name v ds = some ds' ∧ Padded n cs' ds') ∨
      Bindings.overwrite name v cs = none ∧ Bindings.overwrite name v ds = none := by
  induction h with
  | @here scopes hne =>
      have hempty : Bindings.overwrite name v (∅ :: scopes) =
          (Bindings.overwrite name v scopes).map (∅ :: ·) := by
        simp [Bindings.overwrite]
      rw [hempty]
      cases hscopes : Bindings.overwrite name v scopes with
      | none => exact .inr ⟨rfl, rfl⟩
      | some scopes' =>
          have hne' : scopes' ≠ [] := by
            rintro rfl
            rw [Bindings.overwrite_eq_modify] at hscopes
            obtain ⟨i, _, hmodify⟩ := Option.map_eq_some_iff.mp hscopes
            have hlength := congrArg List.length hmodify
            simp [hne] at hlength
          exact .inl ⟨_, _, rfl, rfl, .here hne'⟩
  | @inside n cs ds scope hrest ih =>
      unfold Bindings.overwrite
      by_cases hname : scope.contains name = true
      · simp only [hname, if_true]
        exact .inl ⟨_, _, rfl, rfl, .inside _ hrest⟩
      · simp only [hname, Bool.false_eq_true, if_false]
        rcases ih with ⟨cs', ds', hcs, hds, hpadded⟩ | ⟨hcs, hds⟩
        · rw [hcs, hds]
          exact .inl ⟨_, _, rfl, rfl, .inside scope hpadded⟩
        · rw [hcs, hds]
          exact .inr ⟨rfl, rfl⟩

end Padded

/-! ## Chains -/

def Chain.Padded (n : Nat) (c d : Chain) : Prop :=
  MiniLisp.Padded n c.scopes d.scopes

namespace Chain.Padded

variable {n : Nat} {c d : Chain}

theorem push_empty (c : Chain) : Chain.Padded 0 (c.push ∅) c :=
  .here (List.cons_ne_nil _ _)

theorem get? (h : c.Padded n d) (name : String) : c.get? name = d.get? name :=
  h.findSome? name

theorem depth_eq (h : c.Padded n d) : c.depth = d.depth + 1 := by
  have hlength : c.outer.length + 1 = d.outer.length + 1 + 1 := h.length_eq
  unfold Chain.depth
  omega

theorem set (h : c.Padded n d) (name : String) (v : Value) :
    (∃ c' d', c.set name v = .ok c' ∧ d.set name v = .ok d' ∧ c'.Padded n d') ∨
      c.set name v = .error (.notDefined name) ∧ d.set name v = .error (.notDefined name) := by
  rcases h.overwrite name v with ⟨cs, ds, hcs, hds, hpadded⟩ | ⟨hcs, hds⟩
  · obtain ⟨c', hc, rfl⟩ := Chain.set_of_overwrite hcs
    obtain ⟨d', hd, rfl⟩ := Chain.set_of_overwrite hds
    exact .inl ⟨c', d', hc, hd, hpadded⟩
  · exact .inr ⟨Chain.set_of_overwrite_eq_none hcs, Chain.set_of_overwrite_eq_none hds⟩

theorem push (h : c.Padded n d) (bindings : Bindings) :
    (c.push bindings).Padded (n + 1) (d.push bindings) :=
  .inside bindings h

theorem pop (h : c.Padded (n + 1) d) : c.pop.Padded n d.pop := by
  obtain ⟨cinner, couter⟩ := c
  obtain ⟨dinner, douter⟩ := d
  cases h with
  | inside scope hrest =>
      cases couter with
      | nil => cases hrest
      | cons scope couter =>
          cases douter with
          | nil => exact absurd rfl hrest.ne_nil
          | cons scope' douter => exact hrest

/-- Leaving the empty scope makes the chains the same. -/
theorem pop_eq (h : c.Padded 0 d) : c.pop = d := by
  obtain ⟨cinner, couter⟩ := c
  obtain ⟨dinner, douter⟩ := d
  cases h with
  | here hne => rfl

end Chain.Padded
end MiniLisp
