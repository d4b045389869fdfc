import Mathlib.Data.Nat.Find
import MiniLisp.Scope.Chain

/-!
# What parameters are bound to

Parameters are bound to arguments from left to right, as long as there are both.  Each
binding overwrites an earlier one of the same name, so that in the end a name has the
argument of its last parameter that has one.
-/

namespace MiniLisp

/-- The argument of a name: that of the last parameter with this name among those that
have an argument. -/
def LastArgument (params : List String) (args : List Value) (name : String) (v : Value) :
    Prop :=
  ∃ j < min params.length args.length, params[j]? = some name ∧ args[j]? = some v ∧
    ∀ l < min params.length args.length, j < l → params[l]? ≠ some name

/-- A parameter of the name has an argument. -/
def HasArgument (params : List String) (args : List Value) (name : String) : Prop :=
  ∃ j < min params.length args.length, params[j]? = some name

section Arguments

variable {params : List String} {args : List Value} {name : String}

theorem LastArgument.hasArgument {v : Value} (h : LastArgument params args name v) :
    HasArgument params args name := by
  obtain ⟨j, hj, hname, -⟩ := h
  exact ⟨j, hj, hname⟩

/-- Of the parameters with a name that have an argument, one is the last. -/
theorem HasArgument.exists_lastArgument (h : HasArgument params args name) :
    ∃ v, LastArgument params args name v := by
  obtain ⟨i, hi, hname⟩ := h
  let isOne : Nat → Prop := fun j =>
    j < min params.length args.length ∧ params[j]? = some name
  let last := Nat.findGreatest isOne (min params.length args.length)
  have hlast : isOne last := Nat.findGreatest_spec (P := isOne) (Nat.le_of_lt hi) ⟨hi, hname⟩
  have hargs : last < args.length := Nat.lt_of_lt_of_le hlast.1 (Nat.min_le_right _ _)
  refine ⟨args[last], last, hlast.1, hlast.2, List.getElem?_eq_getElem hargs, ?_⟩
  intro l hl hlt hl'
  exact Nat.findGreatest_is_greatest (P := isOne) hlt (Nat.le_of_lt hl) ⟨hl, hl'⟩

theorem mem_zip_iff_hasArgument :
    (∃ pair ∈ params.zip args, pair.1 = name) ↔ HasArgument params args name := by
  constructor
  · rintro ⟨pair, hpair, rfl⟩
    obtain ⟨j, hj⟩ := List.mem_iff_getElem?.mp hpair
    obtain ⟨hparam, hargument⟩ := List.getElem?_zip_eq_some.mp hj
    have hk := (List.getElem?_eq_some_iff.mp hparam).1
    have hn := (List.getElem?_eq_some_iff.mp hargument).1
    exact ⟨j, Nat.lt_min.mpr ⟨hk, hn⟩, hparam⟩
  · rintro ⟨j, hj, hname⟩
    have hn := (Nat.lt_min.mp hj).2
    have hpair : (params.zip args)[j]? = some (name, args[j]) :=
      List.getElem?_zip_eq_some.mpr ⟨hname, List.getElem?_eq_getElem hn⟩
    exact ⟨_, List.mem_of_getElem? hpair, rfl⟩

end Arguments

namespace Bindings

/-- What is bound under other names does not change a name. -/
private theorem getElem?_foldl_insert {pairs : List (String × Value)} {name : String}
    (h : ∀ pair ∈ pairs, pair.1 ≠ name) (scope : Bindings) :
    (pairs.foldl (fun scope (x, v) => scope.insert x v) scope)[name]? = scope[name]? := by
  induction pairs generalizing scope with
  | nil => rfl
  | cons pair pairs ih =>
      obtain ⟨hpair, hpairs⟩ := List.forall_mem_cons.mp h
      rw [List.foldl_cons, ih hpairs, Std.TreeMap.getElem?_insert,
        if_neg (by simpa using hpair)]

variable {params : List String} {args : List Value} {name : String}

theorem getElem?_ofParams_of_lastArgument {v : Value}
    (h : LastArgument params args name v) : (ofParams params args)[name]? = some v := by
  obtain ⟨j, hj, hname, hv, hlater⟩ := h
  have hpair : (params.zip args)[j]? = some (name, v) :=
    List.getElem?_zip_eq_some.mpr ⟨hname, hv⟩
  obtain ⟨hlt, hget⟩ := List.getElem?_eq_some_iff.mp hpair
  -- The pairs behind this one have other names.
  have hbehind : ∀ pair ∈ (params.zip args).drop (j + 1), pair.1 ≠ name := by
    rintro ⟨x, w⟩ hmem rfl
    obtain ⟨l, hl⟩ := List.mem_iff_getElem?.mp hmem
    rw [List.getElem?_drop] at hl
    obtain ⟨hparam, hargument⟩ := List.getElem?_zip_eq_some.mp hl
    have hk := (List.getElem?_eq_some_iff.mp hparam).1
    have hn := (List.getElem?_eq_some_iff.mp hargument).1
    exact hlater _ (Nat.lt_min.mpr ⟨hk, hn⟩) (by omega) hparam
  have hsplit : params.zip args =
      (params.zip args).take j ++ (name, v) :: (params.zip args).drop (j + 1) := by
    rw [← hget, List.getElem_cons_drop hlt, List.take_append_drop]
  rw [ofParams, hsplit, List.foldl_append, List.foldl_cons, getElem?_foldl_insert hbehind,
    Std.TreeMap.getElem?_insert_self]

theorem getElem?_ofParams_eq_none (h : ¬ HasArgument params args name) :
    (ofParams params args)[name]? = none := by
  have hnone : ∀ pair ∈ params.zip args, pair.1 ≠ name :=
    fun pair hpair hname => h (mem_zip_iff_hasArgument.mp ⟨pair, hpair, hname⟩)
  rw [ofParams, getElem?_foldl_insert hnone]
  exact Std.TreeMap.getElem?_emptyc

theorem getElem?_ofParams_eq_some {v : Value} :
    (ofParams params args)[name]? = some v ↔ LastArgument params args name v := by
  constructor
  · intro h
    by_cases hname : HasArgument params args name
    · obtain ⟨w, hw⟩ := hname.exists_lastArgument
      rw [getElem?_ofParams_of_lastArgument hw] at h
      cases h
      exact hw
    · rw [getElem?_ofParams_eq_none hname] at h
      cases h
  · exact getElem?_ofParams_of_lastArgument

theorem mem_ofParams : name ∈ ofParams params args ↔ HasArgument params args name := by
  rw [Std.TreeMap.mem_iff_isSome_getElem?, Option.isSome_iff_exists]
  constructor
  · rintro ⟨v, hv⟩
    exact (getElem?_ofParams_eq_some.mp hv).hasArgument
  · intro h
    obtain ⟨v, hv⟩ := h.exists_lastArgument
    exact ⟨v, getElem?_ofParams_of_lastArgument hv⟩

/-- What is left over on either side makes no difference. -/
theorem ofParams_take (params : List String) (args : List Value) :
    ofParams (params.take args.length) (args.take params.length) = ofParams params args := by
  unfold ofParams
  congr 1
  induction params generalizing args with
  | nil => simp
  | cons x params ih =>
      cases args with
      | nil => rfl
      | cons v args => simp [ih]

end Bindings
end MiniLisp
