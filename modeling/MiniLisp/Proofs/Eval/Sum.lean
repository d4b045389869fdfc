import MiniLisp.Proofs.Binary64.Addition
import MiniLisp.Proofs.Eval.Arithmetic

/-!
# Sums that start from zero

A sum is meant to be what its operands come to when they are added to zero one after the
other.  It is computed from the first operand on instead, so that the step with zero is left
out.  That step changes a number by no more than the sign of a zero, and the steps behind it
do not make more of the difference.  On an operand that is not a number the step fails.
Where it is left out, the next step fails in its place, with the kinds of other values; and
if there is no next step, the operand is the sum.
-/

namespace MiniLisp

namespace Value

/-- The same value up to the sign of a zero. -/
inductive EqUpToZero : Value → Value → Prop
  | refl (v : Value) : EqUpToZero v v
  | float {x y : Binary64} : x.EqUpToZero y → EqUpToZero (.float x) (.float y)

/-- The same error, or the same value up to the sign of a zero. -/
inductive SameResult : Except EvalError Value → Except EvalError Value → Prop
  | ok {v w : Value} : v.EqUpToZero w → SameResult (.ok v) (.ok w)
  | error (e : EvalError) : SameResult (.error e) (.error e)

theorem EqUpToZero.isNumber {v w : Value} (h : v.EqUpToZero w) (hw : w.IsNumber) :
    v.IsNumber := by
  cases h with
  | refl => exact hw
  | float => exact .inr rfl

theorem SameResult.eq_error {result : Except EvalError Value} {e : EvalError}
    (h : SameResult result (.error e)) : result = .error e := by
  cases h
  rfl

theorem SameResult.refl (result : Except EvalError Value) : SameResult result result := by
  cases result with
  | ok v => exact .ok (.refl v)
  | error e => exact .error e

end Value

namespace Operator

/-- The operands added to zero one after the other. -/
def fromZero (vs : List Value) : Except EvalError Value :=
  vs.foldlM Operator.add.apply (.int 0)

section Agree

variable {v w : Value}

theorem sameResult_apply (h : v.EqUpToZero w) (u : Value) :
    Value.SameResult (Operator.add.apply v u) (Operator.add.apply w u) := by
  cases h with
  | refl => exact .refl _
  | float hxy =>
      cases u with
      | int n => exact .ok (.float (hxy.add_right _))
      | float y => exact .ok (.float (hxy.add_right y))
      | _ => exact .error _

theorem sameResult_foldlM (h : v.EqUpToZero w) (vs : List Value) :
    Value.SameResult (vs.foldlM Operator.add.apply v) (vs.foldlM Operator.add.apply w) := by
  induction vs generalizing v w with
  | nil => exact .ok h
  | cons u vs ih =>
      have hstep := sameResult_apply h u
      simp only [List.foldlM_cons]
      generalize Operator.add.apply v u = left at hstep
      generalize Operator.add.apply w u = right at hstep
      cases hstep with
      | ok h' => exact ih h'
      | error e => exact .error e

theorem exists_apply_zero (hv : v.IsNumber) :
    ∃ w, Operator.add.apply (.int 0) v = .ok w ∧ v.EqUpToZero w := by
  cases v with
  | int n =>
      have hrange := inRange_toInt n
      have hfits : fits (Operator.add.onInts (Int64.toInt 0) n.toInt) = true := by
        simpa [onInts] using fits_iff.mpr hrange
      refine ⟨.int n, ?_, .refl _⟩
      simp only [apply, hfits]
      simp [onInts]
  | float x =>
      have hzero : (Binary64.ofInt 0).IsZero := by decide +kernel
      exact ⟨_, rfl, .float (Binary64.zero_add_eqUpToZero hzero x).symm⟩
  | _ => rcases hv with hv | hv <;> cases hv

/-- A sum that starts with a number agrees with the sum from zero. -/
theorem sameResult_combine {vs : List Value} (hfirst : ∀ v ∈ vs.head?, v.IsNumber) :
    Value.SameResult (Operator.add.combine vs) (fromZero vs) := by
  cases vs with
  | nil => exact .refl _
  | cons v vs =>
      have hv : v.IsNumber := hfirst v rfl
      obtain ⟨w, happly, hvw⟩ := exists_apply_zero hv
      have hstring : Operator.add = .add → ∀ s, (v :: vs).head? ≠ some (.str s) := by
        rintro - s hs
        cases hs
        rcases hv with hv | hv <;> cases hv
      rw [combine_eq_fold (List.cons_ne_nil v vs) hstring, fromZero, List.foldlM_cons, happly]
      exact sameResult_foldlM hvw vs

end Agree

/-! ## Operands that are not numbers -/

section NotNumber

variable {v : Value} {vs : List Value}

theorem fromZero_eq_fold (vs : List Value) : fromZero vs = Operator.add.fold (.int 0 :: vs) := rfl

theorem totals_of_fromZero {w : Value} (h : fromZero vs = .ok w) :
    Operator.add.Totals (.int 0 :: vs) w :=
  (Totals.single .add (.inl rfl)).foldlM h

theorem isNumber_of_fromZero {w : Value} (h : fromZero vs = .ok w) : w.IsNumber := by
  cases totals_of_fromZero h with
  | int => exact .inl rfl
  | float => exact .inr rfl

theorem fromZero_of_not_isNumber (hv : ¬ v.IsNumber) (vs : List Value) :
    fromZero (v :: vs) = .error (.typeMismatch .add .int v.kind) := by
  cases v with
  | int n => exact absurd (.inl rfl) hv
  | float x => exact absurd (.inr rfl) hv
  | _ => rfl

theorem combine_of_not_isNumber (hv : ¬ v.IsNumber)
    (hfirst : ∀ s, (v :: vs).head? ≠ some (.str s)) :
    Operator.add.combine (v :: vs) =
      vs.head?.elim (.ok v) fun w => .error (.typeMismatch .add v.kind w.kind) := by
  rw [combine_eq_fold (List.cons_ne_nil v vs) fun _ => hfirst]
  cases vs with
  | nil => rfl
  | cons w vs =>
      rw [fold, List.foldlM_cons, apply_of_not_isNumber _ hv]
      rfl

/-- Unless there is one operand alone that is not a number, a sum agrees with the sum from
zero, or it reports the kinds of its first two operands. -/
theorem sameResult_or_mismatch (hfirst : ∀ s, vs.head? ≠ some (.str s))
    (hlone : ∀ v, vs = [v] → v.IsNumber) :
    Value.SameResult (Operator.add.combine vs) (fromZero vs) ∨
      ∃ left right, Operator.add.combine vs = .error (.typeMismatch .add left right) := by
  by_cases hnumber : ∀ v ∈ vs.head?, v.IsNumber
  · exact .inl (sameResult_combine hnumber)
  · match vs with
    | [] => simp at hnumber
    | [v] => exact absurd (by simpa using hlone v rfl) hnumber
    | v :: w :: ws => exact .inr ⟨_, _, combine_of_not_isNumber (by simpa using hnumber) hfirst⟩

/-- Without an overflow before it, an operand that is not a number is reported. -/
theorem exists_fromZero_mismatch {k : Nat} (hk : vs[k]? = some v) (hv : ¬ v.IsNumber)
    (hbefore : ∀ j ≤ k, fromZero (vs.take j) ≠ .error (.integerOverflow .add)) :
    ∃ left right, fromZero vs = .error (.typeMismatch .add left right) := by
  cases hfold : fromZero vs with
  | ok a =>
      have hmem := List.mem_cons_of_mem (.int 0) (List.mem_of_getElem? hk)
      exact absurd ((totals_of_fromZero hfold).isNumber v hmem) hv
  | error e =>
      rw [fromZero_eq_fold] at hfold
      obtain ⟨m, w, b, hm, -, -, hfails, hsteps⟩ := exists_failing_step hfold
      obtain ⟨m, rfl⟩ := Nat.exists_eq_add_of_le' hm
      rw [List.take_succ_cons, ← fromZero_eq_fold] at hfails
      cases hsteps with
      | overflow hints _ =>
          -- The operands up to the overflow are integers, so it comes before the other operand.
          have hle : m + 1 ≤ k := by
            by_contra hlt
            have hmem : v ∈ vs.take (m + 1) :=
              List.mem_of_getElem? ((List.getElem?_take_of_lt (Nat.lt_of_not_le hlt)).trans hk)
            exact hv (.inl (hints v (List.mem_cons_of_mem _ hmem)))
          exact absurd hfails (hbefore (m + 1) hle)
      | mismatch => exact ⟨_, _, rfl⟩

theorem isNumber_of_combine (hfirst : ∀ s, vs.head? ≠ some (.str s))
    (hlone : ∀ v, vs = [v] → v.IsNumber) (h : Operator.add.combine vs = .ok v) :
    v.IsNumber := by
  rcases sameResult_or_mismatch hfirst hlone with hsame | ⟨left, right, hfails⟩
  · rw [h] at hsame
    cases hzero : fromZero vs with
    | ok w =>
        rw [hzero] at hsame
        cases hsame with
        | ok hvw => exact hvw.isNumber (isNumber_of_fromZero hzero)
    | error e =>
        rw [hzero] at hsame
        cases hsame
  · cases hfails.symm.trans h

end NotNumber
end Operator

/-- The sum of operands of which the first is not a string agrees with the sum from zero, if
the first is a number or there is none.  An operand that is not a number, as the first, makes
the sum from zero fail; the sum itself fails with the kinds of the first two operands, and
gives the operand back if it is the only one.  This case apart, a sum is a number, and an
operand that is not a number is reported unless the integers before it overflow. -/
theorem sum_from_zero (operands vs args : List Value) (fuel : Nat) (id : Identity)
    (run resolved : Run) (hforced : Eval.forceAll (call fuel) operands run = .ok vs resolved)
    (hfirst : ∀ s, vs.head? ≠ some (.str s)) :
    ∃ result, call (fuel + 1) (.thunk id (.arith .add operands)) args run =
        EvalM.ofExcept result resolved ∧
      ((∀ v ∈ vs.head?, v.IsNumber) → Value.SameResult result (Operator.fromZero vs)) ∧
      (∀ v ws, vs = v :: ws → ¬ v.IsNumber →
        Operator.fromZero vs = .error (.typeMismatch .add .int v.kind) ∧
          result = ws.head?.elim (.ok v) fun w => .error (.typeMismatch .add v.kind w.kind)) ∧
      (vs = [] → result = .ok (.int 0)) ∧
      ((∀ v, vs = [v] → v.IsNumber) →
        (∀ v, result = .ok v → v.IsNumber) ∧
          ∀ k v, vs[k]? = some v → ¬ v.IsNumber →
            (∀ j ≤ k, Operator.fromZero (vs.take j) ≠ .error (.integerOverflow .add)) →
              ∃ left right, result = .error (.typeMismatch .add left right)) := by
  refine ⟨Operator.add.combine vs, call_arith hforced id args,
    fun h => Operator.sameResult_combine h, ?_, ?_, fun hlone => ⟨?_, ?_⟩⟩
  · rintro v ws rfl hv
    exact ⟨Operator.fromZero_of_not_isNumber hv ws, Operator.combine_of_not_isNumber hv hfirst⟩
  · rintro rfl
    rfl
  · intro v hv
    exact Operator.isNumber_of_combine hfirst hlone hv
  · intro k v hk hv hbefore
    rcases Operator.sameResult_or_mismatch hfirst hlone with hsame | hfails
    · obtain ⟨left, right, hmismatch⟩ := Operator.exists_fromZero_mismatch hk hv hbefore
      rw [hmismatch] at hsame
      exact ⟨left, right, hsame.eq_error⟩
    · exact hfails

/-- A negative zero alone stays negative, while added to zero it is positive; and the sum of
two integers overflows before the null behind them is reached. -/
theorem sum_from_zero_signs :
    let run : Run := ⟨.root ∅, .empty⟩
    let minus : Value := .float ⟨0x8000000000000000⟩
    let most : List Value := [.int 9223372036854775807, .int 1, .null]
    call 1 (.thunk 0 (.arith .add [minus])) [] run = .ok minus run ∧
      Operator.fromZero [minus] = .ok (.float ⟨0⟩) ∧
      (∃ result, call 1 (.thunk 0 (.arith .add [minus])) [] run =
          EvalM.ofExcept result run ∧ Value.SameResult result (Operator.fromZero [minus])) ∧
      ∃ result, call 1 (.thunk 0 (.arith .add most)) [] run = EvalM.ofExcept result run ∧
        result = .error (.integerOverflow .add) := by
  intro run minus most
  have hzero : Operator.fromZero [minus] = .ok (.float ⟨0⟩) := by
    have hsum : Binary64.ofInt 0 + ⟨0x8000000000000000⟩ = ⟨0⟩ := by decide +kernel
    exact congrArg (fun x => Except.ok (Value.float x)) hsum
  obtain ⟨result, hcall, hsame, -⟩ :=
    sum_from_zero [minus] [minus] [] 0 0 run run rfl (by simp [minus])
  obtain ⟨result', hcall', hsame', -⟩ :=
    sum_from_zero most most [] 0 0 run run rfl (by simp [most])
  refine ⟨rfl, hzero, ⟨result, hcall, hsame ?_⟩, result', hcall', (hsame' ?_).eq_error⟩
  · simp [minus, Value.IsNumber, Value.kind]
  · simp [most, Value.IsNumber, Value.kind]

/-- One truth value is added up to itself, while the sum from zero fails. -/
theorem lone_operand_not_added :
    let run : Run := ⟨.root ∅, .empty⟩
    call 1 (.thunk 0 (.arith .add [.bool true])) [] run = .ok (.bool true) run ∧
      Operator.fromZero [.bool true] = .error (.typeMismatch .add .int .bool) :=
  ⟨rfl, rfl⟩

end MiniLisp
