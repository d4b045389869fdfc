import Mathlib.Order.Monotone.Basic
import Mathlib.Tactic.Ring
import MiniLisp.Binary64.Basic

/-!
# Rounding to the nearest double

The magnitudes of doubles are the words up to the infinite one, in the order of their units,
where the infinite word counts as the number that would come next.  A ratio of units is
rounded on the grid of the doubles of its own size.  Doubles below that grid are denser, but
they lie behind its lowest point, so that none of them is nearer.  Hence the result is
nearest among all doubles, and of two that are equally near it is the even one; by this it
is determined.
-/

namespace MiniLisp
namespace Binary64

variable {num den : Nat}

/-! ## Quotients -/

/-- A quotient lies less than one half from the natural that it is rounded to, or it is one
half from an even one. -/
theorem divNearestEven_cases (num : Nat) (hden : 0 < den) {q : Nat}
    (hq : divNearestEven num den = q) :
    2 * num < 2 * (q * den) + den ∧ 2 * (q * den) < 2 * num + den ∨
      q % 2 = 0 ∧ (2 * num = 2 * (q * den) + den ∨ 2 * (q * den) = 2 * num + den) := by
  have hsplit := Nat.div_add_mod' num den
  have hlt := Nat.mod_lt num hden
  have hsucc := Nat.add_one_mul (num / den) den
  subst hq
  unfold divNearestEven
  generalize num / den = q at *
  generalize num % den = r at *
  dsimp only
  split_ifs with hbelow habove
  · left
    omega
  · left
    omega
  · right
    rcases Nat.mod_two_eq_zero_or_one q with heven | hodd
    · rw [heven, Nat.add_zero]
      omega
    · rw [hodd]
      omega

/-- No natural is nearer to a quotient than the one that it is rounded to, and if another
one is just as near, that one is even. -/
theorem divNearestEven_nearest (num : Nat) (hden : 0 < den) {q : Nat}
    (hq : divNearestEven num den = q) (p : Nat) :
    ((q * den : Nat) - (num : Int)).natAbs ≤ ((p * den : Nat) - (num : Int)).natAbs ∧
      (p ≠ q →
        ((p * den : Nat) - (num : Int)).natAbs = ((q * den : Nat) - (num : Int)).natAbs →
          q % 2 = 0) := by
  have hcases := divNearestEven_cases num hden hq
  rcases Nat.lt_trichotomy p q with hlt | rfl | hlt
  · have hstep := Nat.mul_le_mul_right den hlt
    rw [Nat.add_one_mul] at hstep
    omega
  · simp
  · have hstep := Nat.mul_le_mul_right den hlt
    rw [Nat.add_one_mul] at hstep
    omega

/-! ## The units of a word -/

/-- A word is a scale and a significand.  The upper end of a scale is the lower end of the
next. -/
theorem unitsOf_scaled (scale : Nat) {q : Nat} (hlo : scale = 0 ∨ exponentUnit ≤ q)
    (hhi : q ≤ 2 * exponentUnit) :
    unitsOf (scale * exponentUnit + q) = q * 2 ^ scale := by
  have hpos : 0 < exponentUnit := by decide
  rcases Nat.lt_or_ge q exponentUnit with hsmall | hlarge
  · have hscale : scale = 0 := by omega
    subst hscale
    simp [unitsOf, scaleOf, Nat.div_eq_of_lt hsmall]
  rcases Nat.lt_or_ge q (2 * exponentUnit) with hlt | hge
  · have hdiv : (scale * exponentUnit + q) / exponentUnit = scale + 1 := by
      have hsucc := Nat.add_one_mul scale exponentUnit
      have hsucc' := Nat.add_one_mul (scale + 1) exponentUnit
      exact Nat.div_eq_of_lt_le (by omega) (by omega)
    simp [unitsOf, scaleOf, hdiv]
  · have hq : q = 2 * exponentUnit := by omega
    have hdiv : (scale * exponentUnit + q) / exponentUnit = scale + 2 := by
      rw [hq, ← Nat.add_mul, Nat.mul_div_cancel _ hpos]
    have hrest : scale * exponentUnit + q - (scale + 1) * exponentUnit = exponentUnit := by
      rw [hq, Nat.add_mul scale 1]
      omega
    have hscale : scaleOf (scale * exponentUnit + q) = scale + 1 := by
      simp [scaleOf, hdiv]
    rw [unitsOf, hscale, hrest, hq, Nat.pow_eq, Nat.pow_succ]
    ring

theorem exists_scaled (word : Nat) :
    ∃ scale q, word = scale * exponentUnit + q ∧ (scale = 0 ∨ exponentUnit ≤ q) ∧
      q < 2 * exponentUnit := by
  have hsplit := Nat.div_add_mod' word exponentUnit
  have hlt := Nat.mod_lt word (show 0 < exponentUnit by decide)
  cases hdiv : word / exponentUnit with
  | zero =>
      rw [hdiv] at hsplit
      exact ⟨0, word, by omega, .inl rfl, by omega⟩
  | succ scale =>
      rw [hdiv, Nat.add_one_mul] at hsplit
      exact ⟨scale, exponentUnit + word % exponentUnit, by omega, .inr (by omega), by omega⟩

theorem unitsOf_strictMono : StrictMono unitsOf := by
  apply strictMono_nat_of_lt_succ
  intro word
  obtain ⟨scale, q, rfl, hlo, hhi⟩ := exists_scaled word
  have hnext : scale = 0 ∨ exponentUnit ≤ q + 1 := by omega
  rw [Nat.add_assoc, unitsOf_scaled scale hlo (by omega), unitsOf_scaled scale hnext (by omega)]
  exact Nat.mul_lt_mul_of_pos_right (by omega) (Nat.two_pow_pos scale)

/-- A double that does not lie below the grid of some scale lies on it. -/
theorem exists_unitsOf_eq {scale word : Nat}
    (hword : scale = 0 ∨ (scale + 1) * exponentUnit ≤ word) :
    ∃ q, unitsOf word = q * 2 ^ scale := by
  obtain ⟨larger, q, rfl, hlo, hhi⟩ := exists_scaled word
  have hle : scale ≤ larger := by
    rcases hword with rfl | hword
    · exact Nat.zero_le _
    · by_contra hlt
      have hstep := Nat.mul_le_mul_right exponentUnit (show larger + 1 ≤ scale by omega)
      rw [Nat.add_one_mul] at hword hstep
      omega
  refine ⟨q * 2 ^ (larger - scale), ?_⟩
  rw [unitsOf_scaled larger hlo (by omega), Nat.mul_assoc, ← Nat.pow_add, Nat.sub_add_cancel hle]

/-! ## The nearest double -/

/-- How far a word lies from `num / den` units, in parts of the denominator. -/
def distance (num den word : Nat) : Nat :=
  ((unitsOf word * den : Nat) - (num : Int)).natAbs

/-- A word is nearest to `num / den` units, and the even one if there are two. -/
structure IsNearest (num den word : Nat) : Prop where
  le_infinity : word ≤ infinityWord
  nearest : ∀ other ≤ infinityWord, distance num den word ≤ distance num den other
  even : ∀ other ≤ infinityWord, other ≠ word →
    distance num den other = distance num den word → word % 2 = 0

theorem IsNearest.unique (hden : 0 < den) {v w : Nat} (hv : IsNearest num den v)
    (hw : IsNearest num den w) : v = w := by
  -- Between two even words there is a word that is nearer than both of them.
  have hnot : ∀ {v w}, IsNearest num den v → IsNearest num den w → ¬ v < w := by
    intro v w hv hw hlt
    have hdist := Nat.le_antisymm (hv.nearest w hw.le_infinity) (hw.nearest v hv.le_infinity)
    have hveven := hv.even w hw.le_infinity (by omega) hdist.symm
    have hweven := hw.even v hv.le_infinity (by omega) hdist
    have hmiddle := hv.nearest (v + 1) (by have := hw.le_infinity; omega)
    have hbelow := Nat.mul_lt_mul_of_pos_right (unitsOf_strictMono (show v < v + 1 by omega)) hden
    have habove := Nat.mul_lt_mul_of_pos_right (unitsOf_strictMono (show v + 1 < w by omega)) hden
    unfold distance at hdist hmiddle
    omega
  have hvw := hnot hv hw
  have hwv := hnot hw hv
  omega

/-- The scale at which a ratio is rounded. -/
def ratioScale (num den : Nat) : Nat :=
  (num / den).log2 - 52

theorem ratioScale_bounds (num : Nat) (hden : 0 < den) :
    (ratioScale num den = 0 ∨ exponentUnit * (den * 2 ^ ratioScale num den) ≤ num) ∧
      num < 2 * exponentUnit * (den * 2 ^ ratioScale num den) := by
  have hunit : exponentUnit = 2 ^ 52 := by decide
  unfold ratioScale
  constructor
  · rcases Nat.eq_zero_or_pos ((num / den).log2 - 52) with hzero | hpos
    · exact .inl hzero
    right
    have hne : num / den ≠ 0 := by
      intro hzero
      simp [hzero] at hpos
    have hle := Nat.log2_self_le hne
    rw [Nat.le_div_iff_mul_le hden] at hle
    have hlog : (num / den).log2 = 52 + ((num / den).log2 - 52) := by omega
    rw [hlog, Nat.pow_add] at hle
    calc exponentUnit * (den * 2 ^ ((num / den).log2 - 52))
        = 2 ^ 52 * 2 ^ ((num / den).log2 - 52) * den := by rw [hunit]; ring
      _ ≤ num := hle
  · have hlt := Nat.lt_log2_self (n := num / den)
    rw [Nat.div_lt_iff_lt_mul hden] at hlt
    have hpow : 2 ^ ((num / den).log2 + 1) ≤ 2 ^ (53 + ((num / den).log2 - 52)) :=
      Nat.pow_le_pow_right (by omega) (by omega)
    calc num < 2 ^ ((num / den).log2 + 1) * den := hlt
      _ ≤ 2 ^ (53 + ((num / den).log2 - 52)) * den := Nat.mul_le_mul_right den hpow
      _ = 2 * exponentUnit * (den * 2 ^ ((num / den).log2 - 52)) := by
        rw [hunit, Nat.pow_add]
        ring

/-- The word of a ratio, if there were no greatest one. -/
def roundedWord (num den : Nat) : Nat :=
  ratioScale num den * exponentUnit + divNearestEven num (den * 2 ^ ratioScale num den)

theorem nearestWord_eq (num den : Nat) :
    nearestWord num den = min infinityWord (roundedWord num den) := rfl

theorem unitsOf_roundedWord (num : Nat) (hden : 0 < den) :
    unitsOf (roundedWord num den) =
      divNearestEven num (den * 2 ^ ratioScale num den) * 2 ^ ratioScale num den := by
  have hgrid : 0 < den * 2 ^ ratioScale num den := Nat.mul_pos hden (Nat.two_pow_pos _)
  obtain ⟨hlo, hhi⟩ := ratioScale_bounds num hden
  have hcases := divNearestEven_cases num hgrid rfl
  unfold roundedWord
  generalize den * 2 ^ ratioScale num den = grid at *
  generalize divNearestEven num grid = q at *
  apply unitsOf_scaled
  · by_contra hnot
    have hstep := Nat.mul_le_mul_right grid (show q + 1 ≤ exponentUnit by omega)
    rw [Nat.add_one_mul] at hstep
    omega
  · by_contra hnot
    have hstep := Nat.mul_le_mul_right grid (show 2 * exponentUnit + 1 ≤ q by omega)
    rw [Nat.add_one_mul] at hstep
    omega

theorem distance_of_unitsOf {scale word q : Nat} (h : unitsOf word = q * 2 ^ scale) :
    distance num den word = ((q * (den * 2 ^ scale) : Nat) - (num : Int)).natAbs := by
  rw [distance, h, Nat.mul_assoc, Nat.mul_comm den]

theorem roundedWord_nearest (num : Nat) (hden : 0 < den) (other : Nat) :
    distance num den (roundedWord num den) ≤ distance num den other ∧
      (other ≠ roundedWord num den →
        distance num den other = distance num den (roundedWord num den) →
          roundedWord num den % 2 = 0) := by
  have hunits := unitsOf_roundedWord num hden
  have hgrid : 0 < den * 2 ^ ratioScale num den := Nat.mul_pos hden (Nat.two_pow_pos _)
  have hnearest := divNearestEven_nearest num hgrid rfl
  rw [distance_of_unitsOf hunits]
  by_cases hother : ratioScale num den = 0 ∨ (ratioScale num den + 1) * exponentUnit ≤ other
  · obtain ⟨p, hp⟩ := exists_unitsOf_eq hother
    rw [distance_of_unitsOf hp]
    refine ⟨(hnearest p).1, fun hne hdist => ?_⟩
    have hpq : p ≠ divNearestEven num (den * 2 ^ ratioScale num den) := by
      rintro rfl
      exact hne (unitsOf_strictMono.injective (hp.trans hunits.symm))
    have heven := (hnearest p).2 hpq hdist
    have hunit : exponentUnit % 2 = 0 := by decide
    simp [roundedWord, Nat.add_mod, Nat.mul_mod, hunit, heven]
  · -- The lowest point of the grid lies between the other word and the ratio.
    obtain ⟨hscale, hbelow⟩ := not_or.mp hother
    have hlowest := (hnearest exponentUnit).1
    have hratio := (ratioScale_bounds num hden).1.resolve_left hscale
    have hunitsLowest := unitsOf_scaled (ratioScale num den) (.inr le_rfl) (by omega)
    have hlt := unitsOf_strictMono (Nat.lt_of_not_le hbelow)
    rw [Nat.add_one_mul, hunitsLowest] at hlt
    have hltden := Nat.mul_lt_mul_of_pos_right hlt hden
    rw [Nat.mul_assoc, Nat.mul_comm (2 ^ _)] at hltden
    unfold distance
    omega

theorem isNearest_nearestWord (num : Nat) (hden : 0 < den) :
    IsNearest num den (nearestWord num den) := by
  have hnearest := roundedWord_nearest num hden
  rw [nearestWord_eq]
  rcases le_or_gt (roundedWord num den) infinityWord with hle | hlt
  · rw [Nat.min_eq_right hle]
    exact ⟨hle, fun other _ => (hnearest other).1, fun other _ => (hnearest other).2⟩
  · -- The ratio lies above the infinite word, since another word above that is nearer.
    rw [Nat.min_eq_left (Nat.le_of_lt hlt)]
    have habove := (hnearest infinityWord).1
    have hunits := Nat.mul_lt_mul_of_pos_right (unitsOf_strictMono hlt) hden
    have hcloser : ∀ other < infinityWord,
        distance num den infinityWord < distance num den other := by
      intro other hother
      have hunits' := Nat.mul_lt_mul_of_pos_right (unitsOf_strictMono hother) hden
      unfold distance at *
      omega
    refine ⟨le_rfl, fun other hother => ?_, fun other hother hne hdist => ?_⟩
    · rcases Nat.eq_or_lt_of_le hother with rfl | hother
      · exact le_rfl
      · exact Nat.le_of_lt (hcloser other hother)
    · have := hcloser other (Nat.lt_of_le_of_ne hother hne)
      omega

/-- A double is rounded to itself. -/
theorem nearestWord_unitsOf {word : Nat} (hword : word ≤ infinityWord) :
    nearestWord (unitsOf word) 1 = word := by
  have hnearest := (isNearest_nearestWord (unitsOf word) Nat.one_pos).nearest word hword
  apply unitsOf_strictMono.injective
  unfold distance at hnearest
  omega

/-! ## Signs and magnitudes -/

section Sign

variable {negative : Bool} {word : Nat}

theorem toNat_bits_ofMagnitude (hword : word < signUnit) :
    (ofMagnitude negative word).bits.toNat = if negative then signUnit + word else word := by
  unfold ofMagnitude signUnit at *
  rw [UInt64.toNat_ofNat']
  split <;> omega

@[simp] theorem magnitude_ofMagnitude (hword : word < signUnit) :
    (ofMagnitude negative word).magnitude = word := by
  rw [magnitude, toNat_bits_ofMagnitude hword]
  cases negative <;> simp [Nat.mod_eq_of_lt hword]

@[simp] theorem isNegative_ofMagnitude (hword : word < signUnit) :
    (ofMagnitude negative word).isNegative = negative := by
  rw [isNegative, toNat_bits_ofMagnitude hword]
  cases negative <;> simp [hword]

theorem ofMagnitude_magnitude (x : Binary64) : ofMagnitude x.isNegative x.magnitude = x := by
  have hlt := x.bits.toNat_lt
  have hmagnitude : x.magnitude < signUnit := Nat.mod_lt _ (by decide)
  have hbits : (ofMagnitude x.isNegative x.magnitude).bits = x.bits := by
    apply UInt64.toNat_inj.mp
    rw [toNat_bits_ofMagnitude hmagnitude]
    simp only [isNegative, magnitude, signUnit]
    by_cases hsign : 9223372036854775808 ≤ x.bits.toNat <;> simp [hsign] <;> omega
  cases x
  exact congrArg Binary64.mk hbits

theorem nearestWord_lt_signUnit (num : Nat) {den : Nat} (hden : 0 < den) :
    nearestWord num den < signUnit :=
  Nat.lt_of_le_of_lt (isNearest_nearestWord num hden).le_infinity (by decide)

end Sign

end Binary64
end MiniLisp
