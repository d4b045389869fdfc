import Mathlib.Combinatorics.Pigeonhole
import MiniLisp.Proofs.Scope.Alias

/-!
# Chains of names that never end

A chain of names that comes to some name twice goes round from there on, and one that ends
comes to no name twice.  All names of a chain but its last are bound in some scope.  So a chain
with more names than are bound at all goes round, and a limit on the number of lookups that is
greater than the number of bound names stops nothing else.
-/

namespace MiniLisp
namespace Chain

/-- The names that some scope of the chain binds. -/
def visible (c : Chain) : Finset String :=
  (c.scopes.flatMap (·.keys)).toFinset

/-- The chain of names that starts with the name comes to some name twice. -/
def Cyclic (c : Chain) (x : String) : Prop :=
  ∃ j k y, j < k ∧ c.Leads j x y ∧ c.Leads k x y

variable {c : Chain} {x y z : String} {m n : Nat}

theorem mem_visible : x ∈ c.visible ↔ ∃ v, c.get? x = some v := by
  have hkey : ∀ scope : Bindings, x ∈ scope.keys ↔ ∃ v, scope[x]? = some v := by
    intro scope
    rw [Std.TreeMap.mem_keys, Std.TreeMap.mem_iff_isSome_getElem?, Option.isSome_iff_exists]
  simp only [visible, List.mem_toFinset, List.mem_flatMap, hkey, get?]
  constructor
  · rintro ⟨scope, hscope, v, hv⟩
    apply Option.isSome_iff_exists.mp
    rw [List.findSome?_isSome_iff]
    exact ⟨scope, hscope, by simp [hv]⟩
  · rintro ⟨v, hv⟩
    obtain ⟨scope, hscope, hget⟩ := List.exists_of_findSome?_eq_some hv
    exact ⟨scope, hscope, v, hget⟩

theorem card_visible_le (c : Chain) : c.visible.card ≤ (c.scopes.map (·.size)).sum := by
  apply (List.toFinset_card_le _).trans
  simp [List.length_flatMap, Std.TreeMap.length_keys]

theorem mem_visible_of_alias (h : c.alias? x = some y) : x ∈ c.visible := by
  obtain ⟨id, hget⟩ := alias?_eq_some.mp h
  exact mem_visible.mpr ⟨_, hget⟩

/-! ## Where a chain of names leads -/

theorem Leads.unique (h : c.Leads n x y) (h' : c.Leads n x z) : y = z := by
  induction h with
  | here => cases h'; rfl
  | hop hx _ ih =>
      cases h' with
      | hop hx' hz =>
          cases hx.symm.trans hx'
          exact ih hz

theorem Leads.split (h : c.Leads (m + n) x z) : ∃ y, c.Leads m x y ∧ c.Leads n y z := by
  induction m generalizing x with
  | zero => exact ⟨x, .here x, by simpa using h⟩
  | succ m ih =>
      rw [Nat.add_right_comm] at h
      cases h with
      | hop hx hrest =>
          obtain ⟨y, hy, hz⟩ := ih hrest
          exact ⟨y, .hop hx hy, hz⟩

/-- A chain of names has one end. -/
theorem Leads.length_le_of_end (h : c.Leads m x y) (hy : c.alias? y = none)
    (h' : c.Leads n x z) : n ≤ m := by
  by_contra hlt
  obtain ⟨extra, rfl⟩ := Nat.exists_eq_add_of_lt (Nat.lt_of_not_le hlt)
  rw [Nat.add_assoc] at h'
  obtain ⟨w, hw, hrest⟩ := h'.split
  cases h.unique hw
  obtain ⟨u, hu⟩ := hrest.exists_alias (Nat.succ_pos extra)
  cases hy.symm.trans hu

theorem Cyclic.alias?_ne_none (hc : c.Cyclic x) (h : c.Leads n x z) : c.alias? z ≠ none := by
  intro hz
  obtain ⟨j, k, y, hjk, hj, hk⟩ := hc
  have hkn := h.length_le_of_end hz hk
  -- The end is as far from the name as it was when the chain came there first.
  obtain ⟨r, rfl⟩ := Nat.exists_eq_add_of_le hkn
  obtain ⟨d, rfl⟩ := Nat.exists_eq_add_of_lt hjk
  have hjoined : c.Leads (j + (d + 1 + r)) x z := by simpa [Nat.add_assoc] using h
  obtain ⟨w, hw, hfar⟩ := hjoined.split
  cases hj.unique hw
  obtain ⟨w, hw, hnear⟩ := h.split
  cases hk.unique hw
  have := hnear.length_le_of_end hz hfar
  omega

theorem follow_one_ne_tooLong (hx : c.alias? x = none) : c.follow 1 x ≠ .tooLong := by
  unfold alias? at hx
  unfold follow
  split at hx
  next => cases hx
  next hget =>
    split
    next => nofun
    next id y hget' => exact absurd hget' (hget id y)
    next => nofun
    next => nofun

/-- The limit is reached exactly if the chain goes on for as many names. -/
theorem follow_eq_tooLong_iff :
    c.follow n x = .tooLong ↔ ∀ k y, k < n → c.Leads k x y → c.alias? y ≠ none := by
  constructor
  · intro h k y hk hy hend
    rw [hy.follow_of_end hend hk] at h
    exact follow_one_ne_tooLong hend h
  · intro h
    rcases c.leads_or_ends n x with ⟨y, hy⟩ | ⟨k, hk, y, hy, hend⟩
    · exact hy.follow_eq_tooLong
    · exact absurd hend (h k y hk hy)

/-! ## The limit and the number of names -/

theorem cyclic_of_leads (hcard : c.visible.card < n) (h : c.Leads n x y) : c.Cyclic x := by
  have hname : ∀ k, ∃ z, k < n → c.Leads k x z ∧ z ∈ c.visible := by
    intro k
    by_cases hk : k < n
    · obtain ⟨extra, rfl⟩ := Nat.exists_eq_add_of_lt hk
      rw [Nat.add_assoc] at h
      obtain ⟨z, hz, hrest⟩ := h.split
      obtain ⟨u, hu⟩ := hrest.exists_alias (Nat.succ_pos extra)
      exact ⟨z, fun _ => ⟨hz, mem_visible_of_alias hu⟩⟩
    · exact ⟨x, fun hk' => absurd hk' hk⟩
  choose name hname using hname
  have hmaps : ∀ k ∈ Finset.range n, name k ∈ c.visible :=
    fun k hk => (hname k (Finset.mem_range.mp hk)).2
  obtain ⟨j, hj, k, hk, hne, heq⟩ :=
    Finset.exists_ne_map_eq_of_card_lt_of_maps_to (by simpa using hcard) hmaps
  have hjleads := (hname j (Finset.mem_range.mp hj)).1
  have hkleads := (hname k (Finset.mem_range.mp hk)).1
  rcases Nat.lt_or_gt_of_ne hne with hlt | hlt
  · exact ⟨j, k, name j, hlt, hjleads, heq ▸ hkleads⟩
  · exact ⟨k, j, name j, hlt, heq ▸ hkleads, hjleads⟩

theorem follow_eq_tooLong_iff_cyclic (hcard : c.visible.card < n) :
    c.follow n x = .tooLong ↔ c.Cyclic x := by
  constructor
  · intro h
    rcases c.leads_or_ends n x with ⟨y, hy⟩ | ⟨k, hk, y, hy, hend⟩
    · exact cyclic_of_leads hcard hy
    · exact absurd hend (follow_eq_tooLong_iff.mp h k y hk hy)
  · intro hc
    exact follow_eq_tooLong_iff.mpr fun k y _ hy => hc.alias?_ne_none hy

end Chain
end MiniLisp
