import Mathlib.Algebra.BigOperators.Group.List.Basic
import Mathlib.Algebra.Ring.Int.Defs
import MiniLisp.Proofs.Eval.Termination

/-!
# Sums and products

A sum or product is built up from left to right, and every step is made with what the
operands before have come to.  As long as these are integers, that is their exact sum or
product; from the first float on, it is a float.  A step can therefore fail for two reasons
only: the exact result of integers does not fit into 64 bits, or there is an operand that
is not a number.  The first step that fails decides the error, whatever comes behind it.
-/

namespace MiniLisp

/-- The integers of 64 bits. -/
def InRange (n : Int) : Prop :=
  -2 ^ 63 ≤ n ∧ n < 2 ^ 63

theorem inRange_toInt (n : Int64) : InRange n.toInt :=
  ⟨Int64.le_toInt n, Int64.toInt_lt n⟩

namespace Value

def IsNumber (v : Value) : Prop :=
  v.kind = .int ∨ v.kind = .float

/-- The integers among values, in order. -/
def integers (vs : List Value) : List Int :=
  vs.filterMap fun v => v.asInt?.map Int64.toInt

theorem integers_append (vs ws : List Value) : integers (vs ++ ws) = integers vs ++ integers ws :=
  List.filterMap_append

end Value

namespace Operator

/-- The exact sum or product of integers. -/
def exact (op : Operator) (ns : List Int) : Int :=
  match op with
  | .add => ns.sum
  | .mul => ns.prod

theorem fits_iff {n : Int} : fits n = true ↔ InRange n := by
  have hmin : Int64.minValue.toInt = -2 ^ 63 := by decide
  have hmax : Int64.maxValue.toInt = 2 ^ 63 - 1 := by decide
  unfold fits InRange
  rw [hmin, hmax, Bool.and_eq_true_iff, decide_eq_true_iff, decide_eq_true_iff]
  omega

theorem exact_single (op : Operator) (n : Int) : op.exact [n] = n := by
  cases op <;> simp [exact]

theorem exact_concat (op : Operator) (ns : List Int) (n : Int) :
    op.exact (ns ++ [n]) = op.onInts (op.exact ns) n := by
  cases op <;> simp [exact, onInts]

theorem exact_perm (op : Operator) {ns ms : List Int} (h : ns.Perm ms) :
    op.exact ns = op.exact ms := by
  cases op with
  | add => exact h.sum_eq
  | mul => exact h.prod_eq

theorem inRange_exact_nil (op : Operator) : InRange (op.exact []) := by
  cases op <;> simp [InRange, exact]

/-! ## One step -/

/-- What operands have come to. -/
inductive Totals (op : Operator) (vs : List Value) : Value → Prop
  | int {n : Int64} : (∀ v ∈ vs, v.kind = .int) → n.toInt = op.exact (Value.integers vs) →
      Totals op vs (.int n)
  | float (x : Binary64) : (∀ v ∈ vs, v.IsNumber) → (∃ v ∈ vs, v.kind = .float) →
      Totals op vs (.float x)

namespace Totals

variable {op : Operator} {vs : List Value} {a : Value}

theorem single (op : Operator) {v : Value} (hv : v.IsNumber) : op.Totals [v] v := by
  cases v with
  | int n => exact .int (by simp [Value.kind]) (op.exact_single n.toInt).symm
  | float x => exact .float x (by simpa using hv) (by simp [Value.kind])
  | _ => rcases hv with hv | hv <;> cases hv

theorem isNumber (h : op.Totals vs a) : ∀ v ∈ vs, v.IsNumber := by
  cases h with
  | int hints _ => exact fun v hv => .inl (hints v hv)
  | float _ hnumbers _ => exact hnumbers

theorem kind_eq (h : op.Totals vs a) :
    a.kind = if vs.any (·.kind == .float) then .float else .int := by
  cases h with
  | int hints _ =>
      have hany : vs.any (·.kind == .float) = false := by
        rw [List.any_eq_false]
        intro v hv
        simp [hints v hv]
      rw [hany]
      rfl
  | float _ _ hfloat =>
      have hany : vs.any (·.kind == .float) = true := by
        rw [List.any_eq_true]
        obtain ⟨v, hv, hkind⟩ := hfloat
        exact ⟨v, hv, by simp [hkind]⟩
      rw [hany]
      rfl

end Totals

/-- How the step with the last of some operands ends, if it is made with values of the
given kinds. -/
inductive Steps (op : Operator) (vs : List Value) (left right : Kind) :
    Except EvalError Value → Prop
  | ok {b : Value} : op.Totals vs b → Steps op vs left right (.ok b)
  | overflow : (∀ v ∈ vs, v.kind = .int) → ¬ InRange (op.exact (Value.integers vs)) →
      Steps op vs left right (.error (.integerOverflow op))
  | mismatch : (∃ v ∈ vs, ¬ v.IsNumber) →
      Steps op vs left right (.error (.typeMismatch op left right))

theorem Totals.steps {op : Operator} {vs : List Value} {a : Value} (h : op.Totals vs a)
    (w : Value) : op.Steps (vs ++ [w]) a.kind w.kind (op.apply a w) := by
  have hnumbers : w.IsNumber → ∀ v ∈ vs ++ [w], v.IsNumber := by
    intro hw v hv
    rcases List.mem_append.mp hv with hv | hv
    · exact h.isNumber v hv
    · rwa [List.mem_singleton.mp hv]
  have hlast : w ∈ vs ++ [w] := List.mem_append_right vs List.mem_cons_self
  cases h with
  | @int n hints hn =>
      cases w with
      | int m =>
          have hall : ∀ v ∈ vs ++ [.int m], v.kind = .int := by
            simpa [or_imp, forall_and, Value.kind] using hints
          have hexact : op.exact (Value.integers (vs ++ [.int m])) =
              op.onInts n.toInt m.toInt := by
            rw [Value.integers_append, hn]
            exact op.exact_concat _ _
          unfold Operator.apply
          dsimp only
          split
          next hfits =>
            have hrange := fits_iff.mp hfits
            refine .ok (.int hall ?_)
            rw [hexact, Int64.toInt_ofInt_of_le hrange.1 hrange.2]
          next hfits =>
            apply Steps.overflow hall
            rwa [hexact, ← fits_iff]
      | float y => exact .ok (.float _ (hnumbers (.inr rfl)) ⟨_, hlast, rfl⟩)
      | _ => exact .mismatch ⟨_, hlast, by simp [Value.IsNumber, Value.kind]⟩
  | float x _ hfloat =>
      obtain ⟨v, hv, hkind⟩ := hfloat
      have hsome : ∃ v ∈ vs ++ [w], v.kind = .float := ⟨v, List.mem_append_left _ hv, hkind⟩
      cases w with
      | int m => exact .ok (.float _ (hnumbers (.inl rfl)) hsome)
      | float y => exact .ok (.float _ (hnumbers (.inr rfl)) hsome)
      | _ => exact .mismatch ⟨_, hlast, by simp [Value.IsNumber, Value.kind]⟩

theorem apply_of_not_isNumber (op : Operator) {v : Value} (hv : ¬ v.IsNumber) (w : Value) :
    op.apply v w = .error (.typeMismatch op v.kind w.kind) := by
  cases v with
  | int n => exact absurd (.inl rfl) hv
  | float x => exact absurd (.inr rfl) hv
  | _ => rfl

/-! ## All steps -/

/-- From what operands have come to, the steps with further operands go on to what all of
them come to. -/
theorem Totals.foldlM {op : Operator} {us vs : List Value} {a b : Value}
    (h : op.Totals us a) (hfold : vs.foldlM op.apply a = .ok b) : op.Totals (us ++ vs) b := by
  induction vs generalizing us a with
  | nil =>
      cases hfold
      rwa [List.append_nil]
  | cons w vs ih =>
      have hsteps := h.steps w
      rw [List.foldlM_cons] at hfold
      generalize op.apply a w = result at hsteps hfold
      cases hsteps with
      | ok htotals =>
          have hrest := ih htotals hfold
          rwa [List.append_assoc] at hrest
      | overflow | mismatch => cases hfold

/-- Steps that fail have come as far as some operand, and the step with this one fails. -/
theorem exists_of_foldlM_error {op : Operator} {vs : List Value} {a : Value} {e : EvalError}
    (h : vs.foldlM op.apply a = .error e) :
    ∃ k w b, vs[k]? = some w ∧ (vs.take k).foldlM op.apply a = .ok b ∧
      op.apply b w = .error e := by
  induction vs generalizing a with
  | nil => cases h
  | cons w vs ih =>
      rw [List.foldlM_cons] at h
      cases happly : op.apply a w with
      | error e' =>
          rw [happly] at h
          cases h
          exact ⟨0, w, a, rfl, rfl, happly⟩
      | ok b =>
          rw [happly] at h
          obtain ⟨k, w', c, hw', hbefore, hfails⟩ := ih h
          refine ⟨k + 1, w', c, hw', ?_, hfails⟩
          rw [List.take_succ_cons, List.foldlM_cons, happly]
          exact hbefore

section Fold

variable {op : Operator} {vs : List Value} {a : Value} {e : EvalError}

/-- Where all operands have a result, so has every part of them from the left. -/
theorem exists_fold_take (h : op.fold vs = .ok a) (j : Nat) :
    ∃ b, op.fold (vs.take j) = .ok b := by
  cases htake : vs.take j with
  | nil => exact ⟨_, rfl⟩
  | cons v us =>
      rw [← List.take_append_drop j vs, htake, List.cons_append, fold, List.foldlM_append] at h
      cases hfold : us.foldlM op.apply v with
      | ok b => exact ⟨b, hfold⟩
      | error e =>
          rw [hfold] at h
          cases h

theorem isNumber_of_fold {v w : Value} (h : op.fold (v :: w :: vs) = .ok a) : v.IsNumber := by
  by_contra hv
  rw [fold, List.foldlM_cons, op.apply_of_not_isNumber hv] at h
  cases h

theorem totals_of_fold (hn : 2 ≤ vs.length) (h : op.fold vs = .ok a) : op.Totals vs a := by
  match vs, hn with
  | v :: w :: vs, _ => exact (Totals.single op (isNumber_of_fold h)).foldlM h

theorem exists_totals_take (hn : 2 ≤ vs.length) (h : op.fold vs = .ok a) {j : Nat}
    (hj : 0 < j) : ∃ b, op.Totals (vs.take j) b := by
  obtain ⟨b, hb⟩ := exists_fold_take h j
  match vs, hn, j, hj with
  | v :: w :: vs, _, j + 1, _ => exact ⟨b, (Totals.single op (isNumber_of_fold h)).foldlM hb⟩

/-- A step from the result of some operands ends as it does from what they come to; one
operand that is not a number comes to nothing, and lets the first step fail. -/
theorem steps_of_fold (hne : vs ≠ []) (h : op.fold vs = .ok a) (w : Value) :
    op.Steps (vs ++ [w]) a.kind w.kind (op.apply a w) := by
  match vs, hne with
  | [v], _ =>
      cases h
      by_cases ha : a.IsNumber
      · exact (Totals.single op ha).steps w
      · rw [op.apply_of_not_isNumber ha]
        exact .mismatch ⟨a, List.mem_cons_self, ha⟩
  | v :: u :: us, _ => exact (totals_of_fold (by simp) h).steps w

/-- Operands without a result have one up to some operand, and the step with this one
fails. -/
theorem exists_failing_step (h : op.fold vs = .error e) :
    ∃ k w b, 1 ≤ k ∧ vs[k]? = some w ∧ op.fold (vs.take k) = .ok b ∧
      op.fold (vs.take (k + 1)) = .error e ∧
      op.Steps (vs.take (k + 1)) b.kind w.kind (.error e) := by
  cases vs with
  | nil => cases h
  | cons v vs =>
      obtain ⟨k, w, b, hw, hbefore, hfails⟩ := exists_of_foldlM_error h
      have htake : v :: vs.take (k + 1) = v :: vs.take k ++ [w] := by
        rw [List.take_add_one, hw]
        rfl
      have hsteps := steps_of_fold (List.cons_ne_nil v (vs.take k)) hbefore w
      refine ⟨k + 1, w, b, Nat.le_add_left 1 k, hw, hbefore, ?_, ?_⟩
      · rw [List.take_succ_cons, htake, List.cons_append, fold, List.foldlM_append, hbefore]
        change (op.apply b w >>= pure) = _
        rw [hfails]
        rfl
      · rwa [List.take_succ_cons, htake, ← hfails]

end Fold

/-! ## Which operands have a result -/

/-- The number of operands before the first float. -/
def firstFloat (vs : List Value) : Nat :=
  vs.findIdx (·.kind == .float)

section FirstFloat

variable {vs : List Value} {j : Nat}

theorem kind_ne_float_of_mem_take (hj : j ≤ firstFloat vs) {v : Value} (hv : v ∈ vs.take j) :
    v.kind ≠ .float := by
  obtain ⟨i, hi, rfl⟩ := List.mem_take_iff_getElem.mp hv
  have hlt : i < vs.findIdx (·.kind == .float) :=
    Nat.lt_of_lt_of_le (Nat.lt_min.mp hi).1 hj
  simpa using List.not_of_lt_findIdx hlt

theorem lt_firstFloat (hj : j < vs.length) (h : ∀ v ∈ vs.take (j + 1), v.kind ≠ .float) :
    j < firstFloat vs := by
  apply List.lt_findIdx_of_not hj
  intro i hi
  have hmem : vs[i] ∈ vs.take (j + 1) :=
    List.mem_take_iff_getElem.mpr ⟨i, by omega, rfl⟩
  simpa using h _ hmem

theorem firstFloat_eq_length : firstFloat vs = vs.length ↔ ∀ v ∈ vs, v.kind ≠ .float := by
  unfold firstFloat
  rw [List.findIdx_eq_length]
  simp

end FirstFloat

section Result

variable {op : Operator} {vs : List Value}

/-- There is a result exactly if all operands are numbers and the integers before the first
float never leave the range. -/
theorem exists_fold_iff (hn : 2 ≤ vs.length) :
    (∃ a, op.fold vs = .ok a) ↔ (∀ v ∈ vs, v.IsNumber) ∧
      ∀ j ≤ firstFloat vs, InRange (op.exact (Value.integers (vs.take j))) := by
  constructor
  · rintro ⟨a, ha⟩
    have hnumbers := (totals_of_fold hn ha).isNumber
    refine ⟨hnumbers, fun j hj => ?_⟩
    rcases Nat.eq_zero_or_pos j with rfl | hpos
    · rw [List.take_zero]
      exact op.inRange_exact_nil
    · obtain ⟨b, htotals⟩ := exists_totals_take hn ha hpos
      cases htotals with
      | int _ hexact =>
          rw [← hexact]
          exact inRange_toInt _
      | float _ _ hfloat =>
          obtain ⟨v, hv, hkind⟩ := hfloat
          exact absurd hkind (kind_ne_float_of_mem_take hj hv)
  · rintro ⟨hnumbers, hrange⟩
    cases hfold : op.fold vs with
    | ok a => exact ⟨a, rfl⟩
    | error e =>
        obtain ⟨k, w, b, hk, hw, -, -, hsteps⟩ := exists_failing_step hfold
        cases hsteps with
        | overflow hints hout =>
            have hlt := (List.getElem?_eq_some_iff.mp hw).1
            have hint : ∀ v ∈ vs.take (k + 1), v.kind ≠ .float := by
              intro v hv
              simp [hints v hv]
            exact absurd (hrange (k + 1) (lt_firstFloat hlt hint)) hout
        | mismatch hother =>
            obtain ⟨v, hv, hkind⟩ := hother
            exact absurd (hnumbers v (List.mem_of_mem_take hv)) hkind

theorem fold_eq_ok (hn : 2 ≤ vs.length) {a : Value} (h : op.fold vs = .ok a) :
    if firstFloat vs = vs.length then ∃ n : Int64, a = .int n ∧ n.toInt = op.exact (Value.integers vs)
    else ∃ x, a = .float x := by
  cases totals_of_fold hn h with
  | @int n hints hexact =>
      have hall : firstFloat vs = vs.length := by
        rw [firstFloat_eq_length]
        intro v hv
        simp [hints v hv]
      rw [if_pos hall]
      exact ⟨n, rfl, hexact⟩
  | float x _ hfloat =>
      have hnot : ¬ firstFloat vs = vs.length := by
        rw [firstFloat_eq_length]
        obtain ⟨v, hv, hkind⟩ := hfloat
        exact fun hall => hall v hv hkind
      rw [if_neg hnot]
      exact ⟨x, rfl⟩

theorem combine_eq_fold (hne : vs ≠ []) (hfirst : op = .add → ∀ s, vs.head? ≠ some (.str s)) :
    op.combine vs = op.fold vs := by
  unfold combine
  split
  · exact absurd rfl hne
  · exact absurd rfl (hfirst rfl _)
  · rfl

theorem combine_take (hne : vs ≠ []) (hfirst : op = .add → ∀ s, vs.head? ≠ some (.str s))
    (j : Nat) : op.combine (vs.take (j + 1)) = op.fold (vs.take (j + 1)) := by
  obtain ⟨v, us, rfl⟩ := List.exists_cons_of_ne_nil hne
  exact combine_eq_fold (List.cons_ne_nil _ _) hfirst

/-- The operands fail with the one at the index `k`, and with none before it. -/
structure FirstFailure (op : Operator) (vs : List Value) (k : Nat) (e : EvalError) : Prop where
  pos : 1 ≤ k
  before : ∀ j, 1 ≤ j → j < k → ∃ v, op.combine (vs.take (j + 1)) = .ok v
  fails : op.combine (vs.take (k + 1)) = .error e
  overflow_iff : e = .integerOverflow op ↔ (∀ v ∈ vs.take (k + 1), v.kind = .int) ∧
    ¬ InRange (op.exact (Value.integers (vs.take (k + 1))))
  mismatch : e ≠ .integerOverflow op → ∃ first last, vs[0]? = some first ∧ vs[k]? = some last ∧
    e = .typeMismatch op (if k = 1 then first.kind
      else if (vs.take k).any (·.kind == .float) then .float else .int) last.kind

/-- The kind of what the operands before the index `k` have come to. -/
theorem kind_of_fold_take {k : Nat} (hk : 1 ≤ k) (hlt : k < vs.length) {a : Value}
    (h : op.fold (vs.take k) = .ok a) :
    ∃ first, vs[0]? = some first ∧ a.kind = if k = 1 then first.kind
      else if (vs.take k).any (·.kind == .float) then .float else .int := by
  obtain ⟨first, us, rfl⟩ := List.exists_cons_of_length_pos (Nat.zero_lt_of_lt hlt)
  refine ⟨first, rfl, ?_⟩
  by_cases hone : k = 1
  · subst hone
    cases h
    rfl
  · have hlength : 2 ≤ ((first :: us).take k).length := by
      rw [List.length_take]
      omega
    rw [if_neg hone]
    exact (totals_of_fold hlength h).kind_eq

theorem exists_firstFailure (hfirst : op = .add → ∀ s, vs.head? ≠ some (.str s)) {e : EvalError}
    (h : op.fold vs = .error e) : ∃ k, op.FirstFailure vs k e := by
  obtain ⟨k, w, b, hk, hw, hbefore, hfails, hsteps⟩ := exists_failing_step h
  have hlt := (List.getElem?_eq_some_iff.mp hw).1
  have hne : vs ≠ [] := List.ne_nil_of_length_pos (Nat.zero_lt_of_lt hlt)
  refine ⟨k, hk, ?_, (combine_take hne hfirst k).trans hfails, ?_, ?_⟩
  · intro j _ hj
    obtain ⟨c, hc⟩ := exists_fold_take hbefore (j + 1)
    rw [List.take_take, Nat.min_eq_left hj] at hc
    exact ⟨c, (combine_take hne hfirst j).trans hc⟩
  · cases hsteps with
    | overflow hints hout => exact ⟨fun _ => ⟨hints, hout⟩, fun _ => rfl⟩
    | mismatch hother =>
        obtain ⟨v, hv, hkind⟩ := hother
        constructor
        · nofun
        · rintro ⟨hints, -⟩
          exact absurd (.inl (hints v hv)) hkind
  · intro hne
    cases hsteps with
    | overflow => exact absurd rfl hne
    | mismatch =>
        obtain ⟨first, hzero, hkind⟩ := kind_of_fold_take hk hlt hbefore
        exact ⟨first, w, hzero, hw, by rw [hkind]⟩

/-- The order of integers makes no difference to a result that both orders have. -/
theorem eq_of_combine_perm {ws : List Value} (hn : 2 ≤ vs.length) (hperm : vs.Perm ws)
    (hints : ∀ v ∈ vs, v.kind = .int) {a b : Value} (ha : op.combine vs = .ok a)
    (hb : op.combine ws = .ok b) : a = b := by
  have htotals : ∀ {us : List Value} {c : Value}, 2 ≤ us.length → (∀ v ∈ us, v.kind = .int) →
      op.combine us = .ok c →
        ∃ n : Int64, c = .int n ∧ n.toInt = op.exact (Value.integers us) := by
    intro us c hlength hall hc
    have hfirst : op = .add → ∀ s, us.head? ≠ some (.str s) := by
      intro _ s hhead
      cases hall _ (List.mem_of_head? hhead)
    rw [combine_eq_fold (List.ne_nil_of_length_pos (by omega)) hfirst] at hc
    have hnone : firstFloat us = us.length := by
      rw [firstFloat_eq_length]
      intro v hv
      simp [hall v hv]
    have hresult := fold_eq_ok hlength hc
    rwa [if_pos hnone] at hresult
  have hints' : ∀ v ∈ ws, v.kind = .int := fun v hv => hints v (hperm.mem_iff.mpr hv)
  obtain ⟨n, rfl, hn'⟩ := htotals hn hints ha
  obtain ⟨m, rfl, hm'⟩ := htotals (hperm.length_eq ▸ hn) hints' hb
  have hexact : op.exact (Value.integers vs) = op.exact (Value.integers ws) :=
    op.exact_perm (hperm.filterMap _)
  rw [Int64.toInt_inj.mp ((hn'.trans hexact).trans hm'.symm)]

end Result
end Operator

theorem EvalM.ofExcept_eq_ok {result : Except EvalError α} {v : α} {run : Run} :
    EvalM.ofExcept result run = .ok v run ↔ result = .ok v := by
  constructor
  · intro h
    cases result with
    | ok w =>
        cases h
        rfl
    | error e => cases h
  · rintro rfl
    rfl

theorem call_arith {fuel : Nat} {op : Operator} {operands vs : List Value} {run resolved : Run}
    (hforced : Eval.forceAll (call fuel) operands run = .ok vs resolved) (id : Identity)
    (args : List Value) :
    call (fuel + 1) (.thunk id (.arith op operands)) args run =
      EvalM.ofExcept (op.combine vs) resolved :=
  EvalM.bind_ok hforced _

/-- A sum or product of two operands or more, of which the first is not a string, has a
result exactly if all operands are numbers and no sum or product of the integers before
the first float leaves the range.  It is the exact one of integers, or some float.  Without
a result, the error is that of the first operand with which there is none. -/
theorem arithmetic_exact (op : Operator) (operands vs args : List Value) (fuel : Nat)
    (id : Identity) (run resolved : Run)
    (hforced : Eval.forceAll (call fuel) operands run = .ok vs resolved)
    (hn : 2 ≤ vs.length) (hfirst : op = .add → ∀ s, vs.head? ≠ some (.str s)) :
    let form := call (fuel + 1) (.thunk id (.arith op operands)) args run
    let m := vs.findIdx (·.kind == .float)
    ((∃ v, form = .ok v resolved) ↔ (∀ v ∈ vs, v.IsNumber) ∧
        ∀ j ≤ m, InRange (op.exact (Value.integers (vs.take j)))) ∧
      (∀ v, form = .ok v resolved → if m = vs.length
        then ∃ n : Int64, v = .int n ∧ n.toInt = op.exact (Value.integers vs)
        else ∃ x, v = .float x) ∧
      ((¬ ∃ v, form = .ok v resolved) → ∃ k e, form = .error (.failed e) resolved ∧
        op.FirstFailure vs k e) ∧
      ∀ ws : List Value, vs.Perm ws → (∀ v ∈ vs, v.kind = .int) → ∀ v w,
        form = .ok v resolved → op.combine ws = .ok w → v = w := by
  intro form m
  have hform : form = EvalM.ofExcept (op.combine vs) resolved := call_arith hforced id args
  have hok : ∀ v, form = .ok v resolved ↔ op.combine vs = .ok v := by
    intro v
    rw [hform]
    exact EvalM.ofExcept_eq_ok
  have hfold : op.combine vs = op.fold vs :=
    Operator.combine_eq_fold (List.ne_nil_of_length_pos (by omega)) hfirst
  simp only [hok]
  refine ⟨?_, ?_, ?_, ?_⟩
  · rw [hfold]
    exact Operator.exists_fold_iff hn
  · intro v hv
    exact Operator.fold_eq_ok hn (hfold.symm.trans hv)
  · intro hnone
    cases hresult : op.combine vs with
    | ok v => exact absurd ⟨v, hresult⟩ hnone
    | error e =>
        obtain ⟨k, hk⟩ := Operator.exists_firstFailure hfirst (hfold.symm.trans hresult)
        refine ⟨k, e, ?_, hk⟩
        rw [hform, hresult]
        rfl
  · intro ws hperm hints v w hv hw
    exact Operator.eq_of_combine_perm hn hperm hints hv hw

/-- The sum of the three integers fits, but not that of the first two; in another order
there is a result.  A product fails over null, behind a float. -/
theorem arithmetic_exact_partial_sum :
    let run : Run := ⟨.root ∅, .empty⟩
    let most : Value := .int 9223372036854775807
    let sum := call 1 (.thunk 0 (.arith .add [most, .int 1, .int (-1)])) [] run
    let product := call 1 (.thunk 0 (.arith .mul [.int 2, .float .nan, .null, most])) [] run
    InRange (Operator.add.exact (Value.integers [most, .int 1, .int (-1)])) ∧
      (∃ k, sum = .error (.failed (.integerOverflow .add)) run ∧
        Operator.add.FirstFailure [most, .int 1, .int (-1)] k (.integerOverflow .add)) ∧
      Operator.add.combine [most, .int (-1), .int 1] = .ok most ∧
      ∃ k, product = .error (.failed (.typeMismatch .mul .float .null)) run ∧
        Operator.mul.FirstFailure [.int 2, .float .nan, .null, most] k
          (.typeMismatch .mul .float .null) := by
  intro run most sum product
  have hsum : sum = .error (.failed (.integerOverflow .add)) run := rfl
  have hproduct : product = .error (.failed (.typeMismatch .mul .float .null)) run := rfl
  obtain ⟨-, -, hsum', -⟩ := arithmetic_exact .add [most, .int 1, .int (-1)]
    [most, .int 1, .int (-1)] [] 0 0 run run rfl (by decide) (by simp [most])
  obtain ⟨-, -, hproduct', -⟩ := arithmetic_exact .mul [.int 2, .float .nan, .null, most]
    [.int 2, .float .nan, .null, most] [] 0 0 run run rfl (by decide) (by simp)
  obtain ⟨k, e, hk, hfailure⟩ := hsum' (by rintro ⟨v, hv⟩; cases hv)
  obtain ⟨l, f, hl, hfailure'⟩ := hproduct' (by rintro ⟨v, hv⟩; cases hv)
  cases hsum.symm.trans hk
  cases hproduct.symm.trans hl
  exact ⟨by unfold InRange; decide, ⟨k, hsum, hfailure⟩, rfl, l, hproduct, hfailure'⟩

end MiniLisp
