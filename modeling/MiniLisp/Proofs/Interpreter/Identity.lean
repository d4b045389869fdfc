import MiniLisp.Proofs.Eval.Monitor
import MiniLisp.Proofs.Expr.Identity
import MiniLisp.Proofs.Interpreter.Loading
import MiniLisp.Proofs.Value.Equality

/-!
# Functions known by their identities

A run makes no functions: those in the values that it leaves bound have occurred in its code,
or they were bound before.  So all functions of an interpreter have been compiled, each with
an identity of its own, or they are built in.  Functions of one interpreter that have the
same identity are therefore the same in every respect, and what equality looks at beside the
identity never makes a difference between them.
-/

namespace MiniLisp

theorem Function.mark_bare (f : Function) : f.bare.mark = f.mark := by
  cases f <;> rfl

/-! ## A run makes no functions -/

/-- No functions but some occur in the value. -/
def Value.Among (P : Function → Prop) (v : Value) : Prop :=
  ∀ f : Function, f.Occurs v → P f

section Among

variable {P : Function → Prop}

theorem Function.among_of_mem_parts {f : Function} (hf : (Value.function f).Among P) {v : Value}
    (hv : v ∈ f.parts) : v.Among P :=
  fun g hg => hf g (.inside (f.parts_subset_elements hv) hg)

theorem Value.among_list {vs : List Value} (h : ∀ v ∈ vs, v.Among P) :
    (Value.list vs).Among P := by
  intro f hf
  obtain ⟨v, hv, hf⟩ := Function.occurs_list.mp hf
  exact h v hv f hf

theorem Value.among_of_isAtom {v : Value} (h : v.isAtom = true) : v.Among P :=
  fun _ hf => absurd hf (Function.not_occurs_of_isCodeFree (Value.isCodeFree_of_isAtom h))

def Discipline.among (P : Function → Prop) : Discipline where
  callable f := (Value.function f).Among P
  code := Value.Among P
  arg := Value.Among P
  result := Value.Among P
  callable_of_code h := h
  values hf hv := Function.among_of_mem_parts hf (Function.values_subset_parts _ hv)
  steps hf hg := Function.among_of_mem_parts hf (Function.steps_subset_parts _ hg)
  arg_of_result h := h
  arg_of_lambda _ h := h
  result_of_code _ h := h
  result_of_atom := Value.among_of_isAtom
  result_list := Value.among_list
  result_define h := Function.among_of_mem_parts h List.mem_cons_self
  result_host h g hg := h g (.inside List.mem_cons_self hg)
  result_host_args _ := Value.among_list

def Invariant.among (P : Function → Prop) : Invariant (.among P) where
  holds _ c := c.All (Value.Among P)
  bound hc hname := hc.get? hname
  define hc hf hdefine := hc.define (Function.among_of_mem_parts hf List.mem_cons_self) hdefine
  set hc hv hset := hc.set hv hset
  push hc _ hbindings := hc.push hbindings
  pop hc := hc.pop

/-- Nothing is looked at. -/
def Monitor.idle : Monitor where
  begins _ _ _ := true
  ends _ _ _ := true

theorem Program.run_among {p : Program} (hp : ∀ f ∈ p, (Value.function f).Among P) {start : Run}
    (hstart : start.chain.All (Value.Among P)) (fuel : Nat) :
    ((p.run fuel).after start).chain.All (Value.Among P) := by
  have hidle : (Invariant.among P).Satisfies .idle := ⟨fun _ _ _ => rfl, fun _ _ _ _ => rfl⟩
  exact (Invariant.eq_of_simulates (n := 0)
    (hidle.runFrom (pure ()) fuel 0 0 .null hp) hstart).2

end Among

/-! ## The functions of an interpreter -/

namespace Interpreter

/-- The function occurs in a unit that has been loaded, or in what a name is bound to. -/
def Holds (i : Interpreter) (f : Function) : Prop :=
  (∃ unit ∈ i.units, f.Occurs (.list (unit.program.map .function))) ∨
    ∃ (s : ScopeId) (name : String) (v : Value),
      (i.forest.bindingsOf s)[name]? = some v ∧ f.Occurs v

theorem holds_new {keywords : Keywords} {f : Function} (h : (new keywords).Holds f) :
    ∃ p, f = .native p := by
  have hnew : (new keywords).forest.All (Value.Among fun f => ∃ p, f = .native p) := by
    refine Forest.All.addRoot .empty (Bindings.all_standard ?_ ?_ ?_ ?_)
    · exact Value.among_of_isAtom rfl
    · exact Value.among_of_isAtom rfl
    · exact Value.among_of_isAtom rfl
    · intro p f hf
      rcases Function.occurs_function.mp hf with rfl | hf
      · exact ⟨p, rfl⟩
      · exact absurd hf (Function.not_occurs_of_isCodeFree rfl)
  rcases h with ⟨unit, hunit, -⟩ | ⟨s, name, v, hv, hf⟩
  · cases hunit
  · exact hnew s name v hv f hf

theorem numbered_new (keywords : Keywords) :
    Function.Numbered 0 (new keywords).fresh (new keywords).Holds where
  le := Nat.zero_le _
  range f id hf hid := by
    obtain ⟨p, rfl⟩ := holds_new hf
    cases hid
  unique f g hf hg heq := by
    obtain ⟨p, rfl⟩ := holds_new hf
    exact (Function.eq_native_of_mark heq.symm).symm

/-- After a load there are the functions from before and those of the unit. -/
theorem holds_load {i : Interpreter} {fuel : Nat} {name source : String} {es : List Expr}
    (hparse : parse (lex i.keywords source).tokens = .ok es) {f : Function}
    (h : (i.load fuel name source).2.Holds f) :
    i.Holds f ∨ f.Occurs (.list ((compileAll es i.fresh).1.map .function)) := by
  have hunits := (stepped_load fuel i name source).units
  rw [Operation.unit?_of_ok rfl hparse] at hunits
  rcases h with ⟨unit, hunit, hf⟩ | ⟨s, x, v, hv, hf⟩
  · rw [hunits, List.mem_append] at hunit
    rcases hunit with hunit | hunit
    · exact .inl (.inl ⟨unit, hunit, hf⟩)
    · cases List.mem_singleton.mp hunit
      exact .inr hf
  · rw [i.forest_load_of_ok fuel name hparse] at hv
    have hbound : i.forest.All (Value.Among fun f =>
        i.Holds f ∨ f.Occurs (.list ((compileAll es i.fresh).1.map .function))) :=
      fun s x v hv f hf => .inl (.inr ⟨s, x, v, hv, hf⟩)
    refine hbound.restore home (Program.run_among ?_ (hbound.chain home) fuel) s x v hv f hf
    exact fun g hg f hf => .inr (.item (List.mem_map_of_mem hg) hf)

theorem numbered_load {i : Interpreter} (hi : Function.Numbered 0 i.fresh i.Holds) (fuel : Nat)
    (name source : String) :
    Function.Numbered 0 (i.load fuel name source).2.fresh (i.load fuel name source).2.Holds := by
  cases hparse : parse (lex i.keywords source).tokens with
  | error e =>
      rw [i.load_of_error fuel name hparse]
      exact hi
  | ok es =>
      have hfresh := (stepped_load fuel i name source).fresh
      rw [Operation.unit?_of_ok rfl hparse] at hfresh
      rw [hfresh]
      exact hi.union (numbered_compileAll_of_parse hparse i.fresh) fun f hf => holds_load hparse hf

theorem numbered_performAll {i : Interpreter} (hi : Function.Numbered 0 i.fresh i.Holds)
    (fuel : Nat) (ops : List Operation) :
    Function.Numbered 0 (i.performAll fuel ops).fresh (i.performAll fuel ops).Holds := by
  induction ops generalizing i with
  | nil => exact hi
  | cons op ops ih =>
      apply ih
      cases op with
      | load name source => exact numbered_load hi fuel name source
      | loadFile path found =>
          cases found with
          | error e => exact hi
          | ok source => exact numbered_load hi fuel path source
      | addKeyword word => exact hi

/-- Functions of one interpreter are equal exactly if they are known by the same, and then
they are the same. -/
theorem beq_iff_mark {keywords : Keywords} {fuel : Nat} {ops : List Operation} {f g : Function}
    (hf : ((new keywords).performAll fuel ops).Holds f)
    (hg : ((new keywords).performAll fuel ops).Holds g) :
    ((f == g) = true ↔ f.mark = g.mark) ∧ ((f == g) = true ↔ f = g) := by
  have hnumbered := numbered_performAll (numbered_new keywords) fuel ops
  have hmark : (f == g) = true → f.mark = g.mark := by
    intro h
    rw [← f.mark_bare, Function.beq_iff_bare.mp h, g.mark_bare]
  have hsame := hnumbered.unique f g hf hg
  have hrefl : f = g → (f == g) = true := by
    rintro rfl
    exact Function.beq_iff_bare.mpr rfl
  exact ⟨⟨hmark, fun h => hrefl (hsame h)⟩, ⟨fun h => hsame (hmark h), hrefl⟩⟩

end Interpreter

namespace Value

/-- Equality is reflexive, symmetric and transitive.  Equal values are of the same kind, count
as true alike and have the same texts.  Lists are equal exactly if their elements are, one by
one, so that equal values may stand for each other in a list.  On the functions of an
interpreter that has loaded nothing but texts, equality compares identities, or what is built
in, and equal functions are the same. -/
theorem equality_congruence :
    (∀ a : Value, (a == a) = true) ∧
      (∀ a b : Value, (a == b) = (b == a)) ∧
      (∀ a b c : Value, (a == b) = true → (b == c) = true → (a == c) = true) ∧
      (∀ a b : Value, (a == b) = true → a.kind = b.kind ∧ a.isTruthy = b.isTruthy ∧
        a.display = b.display ∧ a.text = b.text) ∧
      (∀ xs ys : List Value, (Value.list xs == .list ys) = true ↔
        List.Forall₂ (fun x y => (x == y) = true) xs ys) ∧
      (∀ (a b : Value) (xs ys : List Value),
        (Value.list (xs ++ a :: ys) == .list (xs ++ b :: ys)) = (a == b)) ∧
      ∀ (keywords : Keywords) (fuel : Nat) (ops : List Interpreter.Operation) (f g : Function),
        ((Interpreter.new keywords).performAll fuel ops).Holds f →
        ((Interpreter.new keywords).performAll fuel ops).Holds g →
          ((f == g) = true ↔ f.mark = g.mark) ∧ ((f == g) = true ↔ f = g) := by
  refine ⟨fun a => BEq.rfl, fun a b => BEq.comm, fun a b c => BEq.trans, ?_,
    fun xs ys => list_beq_iff, ?_, fun _ _ _ _ _ hf hg => Interpreter.beq_iff_mark hf hg⟩
  · intro a b h
    have hbare := beq_iff_bare.mp h
    refine ⟨?_, ?_, ?_, ?_⟩
    · rw [← kind_bare a, hbare, kind_bare]
    · rw [← isTruthy_bare a, hbare, isTruthy_bare]
    · rw [display, display, ← write_bare quoted a, hbare, write_bare]
    · rw [text, text, ← write_bare id a, hbare, write_bare]
  · intro a b xs ys
    rw [Bool.eq_iff_iff]
    simp [beq_iff_bare, bare, bareAll_eq_map]

/-- Inside two lists, a value that is not a number equals itself.  A name that is read in two
places of a text is two functions, though their texts do not tell. -/
theorem equality_congruence_nested :
    let i := (Interpreter.new .standard).performAll 9 [.load "first" "(list x x)"]
    let f (id : Identity) : Function := .deferred id "x"
    let a (id : Identity) : Value :=
      .list [.float .nan, .list [.function (.native .print), .function (f id)]]
    i.Holds (f 0) ∧ i.Holds (f 1) ∧ (f 0 == f 1) = false ∧ (a 0 == a 0) = true ∧
      (Value.list [.null, a 0] == .list [.null, a 1]) = false ∧ (a 0).text = (a 1).text := by
  intro i f a
  obtain ⟨hrefl, -, -, -, -, hreplace, hidentity⟩ := equality_congruence
  have hsplit : Lexeme.split "(list x x)".toList =
      [.symbol .lparen '(', .word "list".toList, .blank [' '], .word ['x'], .blank [' '],
        .word ['x'], .symbol .rparen ')'] := by
    decide +kernel
  have hparse : parse (lex .standard "(list x x)").tokens =
      .ok [.list [.name (.str "x"), .name (.str "x")]] := by
    rw [lex, hsplit]
    rfl
  have hunit : (Interpreter.Operation.load "first" "(list x x)").unit? .standard 0 = some _ :=
    Interpreter.Operation.unit?_of_ok rfl hparse 0
  have hunits : i.units = [⟨"first", [.thunk 2 (.list [.function (f 0), .function (f 1)])]⟩] := by
    have hstep := (Interpreter.stepped_load 9 (.new .standard) "first" "(list x x)").units
    exact hstep.trans (congrArg (fun unit => unit.toList.map Prod.fst) hunit)
  have hheld : ∀ v ∈ [Value.function (f 0), .function (f 1)], ∀ g : Function, g.Occurs v →
      i.Holds g := by
    intro v hv g hg
    refine .inl ⟨_, hunits ▸ List.mem_singleton_self _, ?_⟩
    exact .item List.mem_cons_self (.inside hv hg)
  have hfirst : i.Holds (f 0) := hheld _ (by simp) _ .here
  have hsecond : i.Holds (f 1) := hheld _ (by simp) _ .here
  have hother : (f 0 == f 1) = false := by
    rw [Bool.eq_false_iff, ne_eq, (hidentity _ _ _ _ _ hfirst hsecond).1]
    simp [f, Function.mark]
  have hlists : (Value.list [.null, a 0] == .list [.null, a 1]) = (a 0 == a 1) :=
    hreplace (a 0) (a 1) [.null] []
  exact ⟨hfirst, hsecond, hother, hrefl (a 0), hlists.trans rfl, by decide +kernel⟩

end Value
end MiniLisp
