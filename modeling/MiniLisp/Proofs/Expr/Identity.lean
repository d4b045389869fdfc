import MiniLisp.Proofs.Expr.Orderly

/-!
# Identities

Every function that is compiled has an identity of its own.  As identities are given out in
order, the functions in one element have theirs before those in the next, and a function has
a greater one than all functions in it.  So a function is known by its identity, code and all.
-/

namespace MiniLisp

namespace Function

/-- What a function is known by: its identity or, if it is built in, what it does. -/
def mark : Function → Identity ⊕ Native
  | .thunk id _ | .lambda id _ _ | .deferred id _ | .host id _ _ _ => .inl id
  | .native p => .inr p

theorem eq_native_of_mark {f : Function} {p : Native} (h : f.mark = .inr p) : f = .native p := by
  cases f with
  | native q => rw [Sum.inr.inj h]
  | _ => cases h

/-- The values that a function is made of. -/
def elements : Function → List Value
  | .thunk _ (.define target value) | .thunk _ (.set target value) => [target, value]
  | .host _ _ _ answer => answer.toList
  | f => f.parts

/-- The function occurs in a value, be it inside another function. -/
inductive Occurs (f : Function) : Value → Prop
  | here : f.Occurs (.function f)
  | item {v : Value} {vs : List Value} : v ∈ vs → f.Occurs v → f.Occurs (.list vs)
  | inside {v : Value} {g : Function} : v ∈ g.elements → f.Occurs v → f.Occurs (.function g)

theorem parts_subset_elements (f : Function) : f.parts ⊆ f.elements := by
  cases f with
  | thunk id form =>
      cases form with
      | define | set => exact List.subset_cons_self _ _
      | _ => exact List.Subset.refl _
  | host => exact List.nil_subset _
  | _ => exact List.Subset.refl _

section Occurs

variable {f g : Function} {v : Value} {vs : List Value}

theorem occurs_list : f.Occurs (.list vs) ↔ ∃ v ∈ vs, f.Occurs v := by
  constructor
  · intro h
    cases h with
    | item hv hf => exact ⟨_, hv, hf⟩
  · rintro ⟨v, hv, hf⟩
    exact .item hv hf

theorem occurs_function :
    f.Occurs (.function g) ↔ f = g ∨ f.Occurs (.list g.elements) := by
  rw [occurs_list]
  constructor
  · intro h
    cases h with
    | here => exact .inl rfl
    | inside hv hf => exact .inr ⟨_, hv, hf⟩
  · rintro (rfl | ⟨v, hv, hf⟩)
    · exact .here
    · exact .inside hv hf

mutual

theorem not_occurs_of_isCodeFree {v : Value} (h : v.isCodeFree = true) : ¬ f.Occurs v := by
  cases v with
  | list vs =>
      rw [occurs_list]
      rintro ⟨v, hv, hf⟩
      exact not_occurs_of_allCodeFree h v hv hf
  | function g => cases h
  | _ => nofun

theorem not_occurs_of_allCodeFree {vs : List Value} (h : Value.allCodeFree vs = true) :
    ∀ v ∈ vs, ¬ f.Occurs v := by
  cases vs with
  | nil => nofun
  | cons v vs =>
      obtain ⟨hv, hvs⟩ := Bool.and_eq_true_iff.mp h
      exact List.forall_mem_cons.mpr
        ⟨not_occurs_of_isCodeFree hv, not_occurs_of_allCodeFree hvs⟩

end

end Occurs
end Function

/-- Some functions have identities from one number up to another, and no two of them have the
same.  Those that are built in have none. -/
structure Function.Numbered (n m : Nat) (P : Function → Prop) : Prop where
  le : n ≤ m
  range : ∀ f, ∀ id : Nat, P f → f.mark = .inl id → n ≤ id ∧ id < m
  unique : ∀ f g, P f → P g → f.mark = g.mark → f = g

namespace Function.Numbered

variable {n m k : Nat} {P Q R : Function → Prop}

theorem none (hle : n ≤ m) (hP : ∀ f, ¬ P f) : Numbered n m P where
  le := hle
  range f _ hf := absurd hf (hP f)
  unique f _ hf := absurd hf (hP f)

theorem single {f : Function} (hf : f.mark = .inl n) : Numbered n (n + 1) (· = f) where
  le := Nat.le_succ n
  range := by
    rintro g id rfl hid
    cases Sum.inl.inj (hf.symm.trans hid)
    omega
  unique := by
    rintro g h rfl rfl -
    rfl

theorem union (hP : Numbered n m P) (hQ : Numbered m k Q) (hR : ∀ f, R f → P f ∨ Q f) :
    Numbered n k R := by
  have hle := hP.le
  have hle' := hQ.le
  refine ⟨by omega, ?_, ?_⟩
  · intro f id hf hid
    rcases hR f hf with hf | hf
    · have hrange := hP.range f id hf hid
      omega
    · have hrange := hQ.range f id hf hid
      omega
  · -- The two ranges have no identity in common, so only built-in functions are in both.
    have hshared : ∀ f g, P f → Q g → f.mark = g.mark → f = g := by
      intro f g hf hg heq
      cases hmark : f.mark with
      | inl id =>
          have hrange := hP.range f id hf hmark
          have hrange' := hQ.range g id hg (heq.symm.trans hmark)
          omega
      | inr p => rw [eq_native_of_mark hmark, eq_native_of_mark (heq.symm.trans hmark)]
    intro f g hf hg heq
    rcases hR f hf with hf | hf <;> rcases hR g hg with hg | hg
    · exact hP.unique f g hf hg heq
    · exact hshared f g hf hg heq
    · exact (hshared g f hg hf heq.symm).symm
    · exact hQ.unique f g hf hg heq

end Function.Numbered

/-- The functions in a value have identities from one number up to another, and no two of
them have the same. -/
abbrev Value.Numbered (n m : Nat) (v : Value) : Prop :=
  Function.Numbered n m (·.Occurs v)

namespace Value.Numbered

variable {n m k : Nat} {v : Value} {vs : List Value}

theorem data (hle : n ≤ m) (hv : v.isCodeFree = true) : v.Numbered n m :=
  .none hle fun _ => Function.not_occurs_of_isCodeFree hv

theorem cons (hv : v.Numbered n m) (hvs : (Value.list vs).Numbered m k) :
    (Value.list (v :: vs)).Numbered n k := by
  apply Function.Numbered.union hv hvs
  intro f hf
  simpa [Function.occurs_list] using hf

theorem function {f : Function} (hf : f.mark = .inl m)
    (helements : (Value.list f.elements).Numbered n m) :
    (Value.function f).Numbered n (m + 1) := by
  apply Function.Numbered.union helements (.single hf)
  intro g hg
  exact (Function.occurs_function.mp hg).symm

end Value.Numbered

/-! ## Compiling -/

/-- Compiling an element gives out the identities of the functions in it. -/
structure Element.Numbered (x : Element) : Prop where
  compile : ∀ n, (x.compile n).1.Numbered n (x.compile n).2
  target : ∀ n, (x.compileTarget n).1.Numbered n (x.compileTarget n).2

def Expr.Numbered (e : Expr) : Prop :=
  ∀ n, (Value.function (e.compile n).1).Numbered n (e.compile n).2

namespace Element.Numbered

theorem literal {v : Value} (hv : v.isCodeFree = true) : (Element.literal v).Numbered where
  compile _ := .data le_rfl hv
  target _ := .data le_rfl hv

theorem name {v : Value} (hv : v.isCodeFree = true) : (Element.name v).Numbered where
  compile _ := .function rfl (.data le_rfl rfl)
  target _ := .data le_rfl hv

theorem expr {e : Expr} (he : e.Numbered) : (Element.expr e).Numbered where
  compile n := he n
  target n := he n

end Element.Numbered

theorem Element.numbered_compileAll {xs : List Element} (hxs : ∀ x ∈ xs, x.Numbered)
    (n : Identity) :
    (Value.list (Element.compileAll xs n).1).Numbered n (Element.compileAll xs n).2 := by
  induction xs generalizing n with
  | nil => exact .data le_rfl rfl
  | cons x xs ih =>
      rw [List.forall_mem_cons] at hxs
      exact (hxs.1.compile n).cons (ih hxs.2 _)

/-- A name to bind, and the value for it. -/
theorem Element.numbered_binding {target value : Element}
    (hxs : ∀ x ∈ [target, value], x.Numbered) (n : Identity) :
    let name := target.compileTarget n
    let v := value.compile name.2
    (Value.list [name.1, v.1]).Numbered n v.2 := by
  intro name v
  have htarget := (hxs target (by simp)).target n
  have hvalue := (hxs value (by simp)).compile name.2
  exact htarget.cons (hvalue.cons (.data le_rfl rfl))

namespace Expr.Numbered

variable {xs : List Element} (hxs : ∀ x ∈ xs, x.Numbered)

theorem empty : Expr.Numbered .empty :=
  fun _ => .function rfl (.data le_rfl rfl)

include hxs in
theorem arith (op : Char) : (Expr.arith op xs).Numbered := by
  intro n
  have hvs := Element.numbered_compileAll hxs n
  refine .function rfl ?_
  change (Value.list (Function.thunk _ (.ofArith op _)).elements).Numbered n _
  unfold Form.ofArith
  split
  · exact hvs
  · exact hvs
  · exact .data hvs.le rfl

include hxs in
theorem list : (Expr.list xs).Numbered :=
  fun n => .function rfl (Element.numbered_compileAll hxs n)

include hxs in
theorem call (callee : String) : (Expr.call callee xs).Numbered :=
  fun n => .function rfl (Element.numbered_compileAll hxs n)

include hxs in
theorem lambda (params : List String) : (Expr.lambda params xs).Numbered :=
  fun n => .function rfl (Element.numbered_compileAll hxs n)

include hxs in
theorem begin : (Expr.begin xs).Numbered :=
  fun n => .function rfl (Element.numbered_compileAll hxs n)

theorem cond {test yes no : Element} (hxs : ∀ x ∈ [test, yes, no], x.Numbered) :
    (Expr.cond test yes no).Numbered :=
  fun n => .function rfl (Element.numbered_compileAll hxs n)

theorem define {target value : Element} (hxs : ∀ x ∈ [target, value], x.Numbered) :
    (Expr.define target value).Numbered :=
  fun n => .function rfl (Element.numbered_binding hxs n)

theorem set {target value : Element} (hxs : ∀ x ∈ [target, value], x.Numbered) :
    (Expr.set target value).Numbered :=
  fun n => .function rfl (Element.numbered_binding hxs n)

end Expr.Numbered

mutual

theorem Element.Renders.numbered {x : Element} {ts : List Token} :
    Element.Renders x ts → Token.AllData ts → x.Numbered
  | .literal _, hdata => .literal (hdata _ List.mem_cons_self)
  | .name _, hdata => .name (hdata _ List.mem_cons_self)
  | .expr he, hdata => .expr (Expr.Renders.numbered he hdata)

theorem Element.RendersAll.numbered {xs : List Element} {ts : List Token} :
    Element.RendersAll xs ts → Token.AllData ts → ∀ x ∈ xs, x.Numbered
  | .nil _, _ => nofun
  | .cons _ hx hxs, hdata =>
      List.forall_mem_cons.mpr
        ⟨Element.Renders.numbered hx hdata.append_left.append_right,
          Element.RendersAll.numbered hxs hdata.append_right⟩

theorem Expr.Renders.numbered {e : Expr} {ts : List Token} :
    Expr.Renders e ts → Token.AllData ts → e.Numbered
  | .empty _ _, _ => .empty
  | .arith _ _ hxs _ _, hdata => .arith (Element.RendersAll.numbered hxs hdata.between) _
  | .cond _ _ hxs _, hdata => .cond (Element.RendersAll.numbered hxs hdata.between)
  | .define _ _ hxs _, hdata => .define (Element.RendersAll.numbered hxs hdata.between)
  | .set _ _ _ _ hxs _, hdata => .set (Element.RendersAll.numbered hxs hdata.between)
  | .lambda _ _ _ _ _ _ hxs _, hdata =>
      .lambda (Element.RendersAll.numbered hxs hdata.between) _
  | .begin _ _ _ hxs _, hdata => .begin (Element.RendersAll.numbered hxs hdata.between)
  | .list _ _ hxs _, hdata => .list (Element.RendersAll.numbered hxs hdata.between)
  | .call _ _ hxs _, hdata => .call (Element.RendersAll.numbered hxs hdata.between) _

end

theorem Expr.RendersUnit.numbered {es : List Expr} {ts : List Token}
    (h : Expr.RendersUnit es ts) (hdata : Token.AllData ts) : ∀ e ∈ es, e.Numbered := by
  obtain ⟨parts, hparts, rfl⟩ := h
  induction hparts with
  | nil => nofun
  | cons he _ ih =>
      exact List.forall_mem_cons.mpr ⟨he.numbered hdata.append_left, ih hdata.append_right⟩

/-- A text is compiled to functions with identities of their own. -/
theorem numbered_compileAll_of_parse {keywords : Keywords} {source : String} {es : List Expr}
    (hparse : parse (lex keywords source).tokens = .ok es) (n : Identity) :
    (Value.list ((compileAll es n).1.map .function)).Numbered n (compileAll es n).2 := by
  have hes := (parse_eq_ok_iff_renders.mp hparse).numbered (Token.allData_lex keywords source)
  clear hparse
  induction es generalizing n with
  | nil => exact .data le_rfl rfl
  | cons e es ih =>
      rw [List.forall_mem_cons] at hes
      exact (hes.1 n).cons (ih _ hes.2)

end MiniLisp
