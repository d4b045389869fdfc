import MiniLisp.Binary64.Arithmetic
import MiniLisp.Proofs.Binary64.Rounding

/-!
# Adding to zero

A double is rounded to itself, so zero and a double add up to that double.  The one exception
is the negative zero, of which the sum with zero is the positive one.  The difference does not
grow when more is added: the two zeros differ in nothing but their sum with a zero.
-/

namespace MiniLisp
namespace Binary64

def IsZero (x : Binary64) : Prop :=
  x.magnitude = 0

instance (x : Binary64) : Decidable x.IsZero :=
  inferInstanceAs (Decidable (x.magnitude = 0))

/-- Two doubles are the same up to the sign of a zero. -/
def EqUpToZero (x y : Binary64) : Prop :=
  x = y ∨ x.IsZero ∧ y.IsZero

namespace EqUpToZero

variable {x y z : Binary64}

theorem refl (x : Binary64) : EqUpToZero x x :=
  .inl rfl

theorem symm (h : EqUpToZero x y) : EqUpToZero y x := by
  rcases h with rfl | ⟨hx, hy⟩
  · exact .refl x
  · exact .inr ⟨hy, hx⟩

theorem trans (h : EqUpToZero x y) (h' : EqUpToZero y z) : EqUpToZero x z := by
  rcases h with rfl | ⟨hx, hy⟩
  · exact h'
  · rcases h' with rfl | ⟨-, hz⟩
    · exact .inr ⟨hx, hy⟩
    · exact .inr ⟨hx, hz⟩

end EqUpToZero

theorem datum_of_isZero {x : Binary64} (hx : x.IsZero) : x.datum = .finite x.isNegative 0 := by
  have hzero : x.magnitude = 0 := hx
  have hunits : unitsOf 0 = 0 := by decide
  have hinfinity : 0 < infinityWord := by decide
  simp [datum, hzero, hunits, hinfinity]

theorem isZero_ofUnits_zero (negative : Bool) : (ofUnits negative 0 1).IsZero := by
  cases negative <;> decide

theorem addFinite_zero_left {s t : Bool} {units : Nat} (hunits : units ≠ 0) :
    addFinite s 0 t units = ofUnits t units 1 := by
  have hnonneg : ¬ (units : Int) < 0 := by omega
  have hpos : 0 < units := by omega
  cases s <;> cases t <;> simp [addFinite, signed, hunits, hnonneg, hpos]

/-- A finite double is the one with its units. -/
theorem ofUnits_of_datum {x : Binary64} {negative : Bool} {units : Nat}
    (h : x.datum = .finite negative units) : ofUnits negative units 1 = x := by
  unfold datum at h
  split at h
  next hlt =>
    cases h
    rw [ofUnits, nearestWord_unitsOf (Nat.le_of_lt hlt), ofMagnitude_magnitude]
  next => split at h <;> cases h

theorem isZero_of_datum {x : Binary64} {negative : Bool} (h : x.datum = .finite negative 0) :
    x.IsZero := by
  rw [← ofUnits_of_datum h]
  exact isZero_ofUnits_zero negative

/-- A zero adds nothing, up to the sign of a zero. -/
theorem zero_add_eqUpToZero {z : Binary64} (hz : z.IsZero) (x : Binary64) :
    EqUpToZero (z + x) x := by
  change EqUpToZero (add z x) x
  unfold add
  rw [datum_of_isZero hz]
  cases hx : x.datum with
  | nan => exact .refl x
  | infinite negative => exact .refl x
  | finite negative units =>
      dsimp only
      by_cases hunits : units = 0
      · subst hunits
        refine .inr ⟨?_, isZero_of_datum hx⟩
        cases z.isNegative <;> cases negative <;> decide
      · rw [addFinite_zero_left hunits, ofUnits_of_datum hx]
        exact .refl x

theorem EqUpToZero.add_right {x y : Binary64} (h : EqUpToZero x y) (z : Binary64) :
    EqUpToZero (x + z) (y + z) := by
  rcases h with rfl | ⟨hx, hy⟩
  · exact .refl _
  · exact (zero_add_eqUpToZero hx z).trans (zero_add_eqUpToZero hy z).symm

end Binary64
end MiniLisp
