import Mathlib.Data.List.Forall2
import MiniLisp.Value.Text

/-!
# Equality of values

Equality looks at functions only from the outside: at what kind of function they are, at
their identity, and at the name that they read.  What is left of a value without the code in
its functions is its bare form, and values are equal exactly if their bare forms are the same.
Nothing else is needed to tell the kind of a value, to test it or to write it, so that all of
these agree on equal values.
-/

namespace MiniLisp

/-- The function without its code. -/
def Function.bare : Function → Function
  | .thunk id _ => .thunk id .empty
  | .lambda id _ _ => .lambda id [] []
  | .deferred id name => .deferred id name
  | .native p => .native p
  | .host id _ params _ => .host id "" (params.map fun _ => []) none

namespace Value

mutual

/-- The value without the code in its functions. -/
def bare : Value → Value
  | .list items => .list (bareAll items)
  | .function f => .function f.bare
  | .int n => .int n
  | .float x => .float x
  | .str s => .str s
  | .bool b => .bool b
  | .null => .null

def bareAll : List Value → List Value
  | [] => []
  | v :: vs => bare v :: bareAll vs

end

theorem bareAll_eq_map (vs : List Value) : bareAll vs = vs.map bare := by
  induction vs with
  | nil => rfl
  | cons v vs ih => rw [bareAll, ih, List.map_cons]

end Value

namespace Function

variable {f g : Function}

theorem beq_iff_bare : (f == g) = true ↔ f.bare = g.bare := by
  change f.same g = true ↔ _
  cases f <;> cases g <;> simp [same, bare]
  case host.host id _ params _ id' _ params' _ => cases params <;> cases params' <;> simp

theorem display_bare (f : Function) : f.bare.display = f.display := by
  cases f with
  | host id label params answer => cases params <;> rfl
  | _ => rfl

end Function

namespace Value

/-! ## Equal values have the same bare form -/

mutual

theorem same_iff (a b : Value) : a.same b = true ↔ a.bare = b.bare := by
  cases a with
  | list xs =>
      cases b with
      | list ys => simpa [same, bare] using sameAll_iff xs ys
      | _ => simp [same, bare]
  | function f =>
      cases b with
      | function g => simpa [same, bare] using Function.beq_iff_bare
      | _ => simp [same, bare]
  | _ => cases b <;> simp [same, bare]

theorem sameAll_iff (xs ys : List Value) : sameAll xs ys = true ↔ bareAll xs = bareAll ys := by
  cases xs with
  | nil => cases ys <;> simp [sameAll, bareAll]
  | cons x xs =>
      cases ys with
      | nil => simp [sameAll, bareAll]
      | cons y ys => simp [sameAll, bareAll, same_iff x y, sameAll_iff xs ys]

end

theorem beq_iff_bare {a b : Value} : (a == b) = true ↔ a.bare = b.bare :=
  same_iff a b

instance : EquivBEq Value where
  rfl := beq_iff_bare.mpr rfl
  symm h := beq_iff_bare.mpr (beq_iff_bare.mp h).symm
  trans h h' := beq_iff_bare.mpr ((beq_iff_bare.mp h).trans (beq_iff_bare.mp h'))

/-! ## What the bare form tells -/

theorem kind_bare (v : Value) : v.bare.kind = v.kind := by
  cases v <;> rfl

theorem isTruthy_bare (v : Value) : v.bare.isTruthy = v.isTruthy := by
  cases v <;> rfl

mutual

theorem write_bare (string : String → String) (v : Value) :
    v.bare.write string = v.write string := by
  cases v with
  | list items => rw [bare, write, write, writeAll_bareAll string items]
  | function f => exact f.display_bare
  | _ => rfl

theorem writeAll_bareAll (string : String → String) (vs : List Value) :
    writeAll string (bareAll vs) = writeAll string vs := by
  cases vs with
  | nil => rfl
  | cons v vs => rw [bareAll, writeAll, writeAll, write_bare string v, writeAll_bareAll string vs]

end

theorem list_beq_iff {xs ys : List Value} :
    (Value.list xs == .list ys) = true ↔ List.Forall₂ (fun x y => (x == y) = true) xs ys := by
  have hmap : List.Forall₂ (fun x y => bare x = bare y) xs ys ↔ xs.map bare = ys.map bare := by
    rw [← List.forall₂_eq_eq_eq, List.forall₂_map_left_iff, List.forall₂_map_right_iff]
  simp only [beq_iff_bare, bare, bareAll_eq_map, Value.list.injEq, hmap]

end Value
end MiniLisp
