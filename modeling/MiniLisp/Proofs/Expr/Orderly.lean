import MiniLisp.Expr.Compile
import MiniLisp.Proofs.Eval.Simulation
import MiniLisp.Proofs.Expr.Reading
import MiniLisp.Proofs.Token.Contract

/-!
# Orderly definitions

The value of a definition is what stands on its right, unforced, and so it may be
code.  If definitions stand only at the top and in a body before the last element,
nobody asks for their values.  Here it is said which expressions are orderly in this
way, and what they are compiled to: functions in which no definition stands where a
value is asked for, and in which all data are free of code.
-/

namespace MiniLisp

/-! ## Values without code -/

mutual

/-- No function occurs in a value, at any depth. -/
def Value.isCodeFree : Value → Bool
  | .list items => Value.allCodeFree items
  | .function _ => false
  | _ => true

def Value.allCodeFree : List Value → Bool
  | [] => true
  | v :: vs => v.isCodeFree && Value.allCodeFree vs

end

theorem Value.allCodeFree_of_forall {vs : List Value} (h : ∀ v ∈ vs, v.isCodeFree = true) :
    Value.allCodeFree vs = true := by
  induction vs with
  | nil => rfl
  | cons v vs ih =>
      rw [List.forall_mem_cons] at h
      exact Bool.and_eq_true_iff.mpr ⟨h.1, ih h.2⟩

theorem Value.isCodeFree_of_isAtom {v : Value} (h : v.isAtom = true) :
    v.isCodeFree = true := by
  cases v with
  | list items => cases h
  | function f => cases h
  | _ => rfl

/-! ## Where definitions stand -/

def Expr.isDefinition : Expr → Bool
  | .define .. => true
  | _ => false

mutual

/-- The element is asked for its value: it is no definition itself. -/
def Element.orderly : Element → Bool
  | .literal _ | .name _ => true
  | .expr e => !e.isDefinition && e.orderly

def Element.allOrderly : List Element → Bool
  | [] => true
  | x :: xs => x.orderly && Element.allOrderly xs

/-- The element is evaluated for its effects, and may be a definition. -/
def Element.orderlyStep : Element → Bool
  | .literal _ | .name _ => true
  | .expr e => e.orderly

/-- Only the last element of a body is asked for its value. -/
def Element.orderlyBody : List Element → Bool
  | [] => true
  | [x] => x.orderly
  | x :: xs => x.orderlyStep && Element.orderlyBody xs

/-- Inside an expression, definitions stand only in bodies, before the last element.
What stands in the place of a name is never evaluated and does not matter. -/
def Expr.orderly : Expr → Bool
  | .empty => true
  | .arith _ xs | .list xs | .call _ xs => Element.allOrderly xs
  | .cond test yes no => test.orderly && yes.orderly && no.orderly
  | .define _ value | .set _ value => value.orderly
  | .lambda _ xs | .begin xs => Element.orderlyBody xs

end

def Function.isDefinition : Function → Bool
  | .thunk _ (.define ..) => true
  | _ => false

def Function.isHost : Function → Bool
  | .host .. => true
  | _ => false

mutual

/-- Compiled code with orderly definitions.  It may be a definition itself. -/
inductive Function.Orderly : Function → Prop
  | mk {f : Function} : f.isHost = false → (∀ v ∈ f.values, Value.Code v) →
      (∀ g, .function g ∈ f.steps → Function.Orderly g) → Function.Orderly f

/-- What may be asked for its value: data free of code, and orderly code that is no
definition itself. -/
inductive Value.Code : Value → Prop
  | data {v : Value} : v.isCodeFree = true → Value.Code v
  | function {f : Function} : f.isDefinition = false → Function.Orderly f →
      Value.Code (.function f)

end

theorem Function.Orderly.values {f : Function} (hf : f.Orderly) {v : Value}
    (hv : v ∈ f.values) : v.Code := by
  cases hf with
  | mk _ hvalues _ => exact hvalues v hv

theorem Function.Orderly.steps {f g : Function} (hf : f.Orderly)
    (hg : .function g ∈ f.steps) : g.Orderly := by
  cases hf with
  | mk _ _ hsteps => exact hsteps g hg

theorem Function.Orderly.isHost {f : Function} (hf : f.Orderly) : f.isHost = false := by
  cases hf with
  | mk hhost _ _ => exact hhost

theorem Function.Orderly.of_values {f : Function} (hhost : f.isHost = false)
    (hsteps : f.steps = []) (hvalues : ∀ v ∈ f.values, v.Code) : f.Orderly := by
  refine .mk hhost hvalues ?_
  intro g hg
  rw [hsteps] at hg
  cases hg

theorem Function.Orderly.leaf {f : Function} (hhost : f.isHost = false) (hsteps : f.steps = [])
    (hvalues : f.values = []) : f.Orderly := by
  apply of_values hhost hsteps
  rw [hvalues]
  exact fun v hv => nomatch hv

theorem Value.Code.isCodeFree {v : Value} (hv : v.Code) (hdata : v.isFunction = false) :
    v.isCodeFree = true := by
  cases hv with
  | data hfree => exact hfree
  | function _ _ => cases hdata

theorem Value.Code.callable {f : Function} (h : (Value.function f).Code) :
    f.isDefinition = false ∧ f.Orderly := by
  cases h with
  | data hfree => cases hfree
  | function hdefinition hf => exact ⟨hdefinition, hf⟩

/-! ## Compiling orderly expressions -/

/-- An element becomes code that is orderly if the element is. -/
structure Element.Faithful (x : Element) : Prop where
  code : x.orderly = true → ∀ n, (x.compile n).1.Code
  step : x.orderlyStep = true → ∀ n g, (x.compile n).1 = .function g → g.Orderly

def Expr.Faithful (e : Expr) : Prop :=
  e.orderly = true → ∀ n, (e.compile n).1.Orderly

theorem Expr.isDefinition_compile (e : Expr) (n : Identity) :
    (e.compile n).1.isDefinition = e.isDefinition := by
  cases e with
  | arith op xs =>
      change (Function.thunk _ (.ofArith op _)).isDefinition = false
      unfold Form.ofArith
      split <;> rfl
  | _ => rfl

namespace Element

theorem Faithful.literal {v : Value} (hv : v.isCodeFree = true) :
    (Element.literal v).Faithful where
  code _ _ := .data hv
  step _ n g hg := by
    change v = .function g at hg
    rw [hg] at hv
    cases hv

theorem Faithful.name (v : Value) : (Element.name v).Faithful where
  code _ _ := .function rfl (.leaf rfl rfl rfl)
  step _ n g hg := by
    obtain rfl := Value.function.inj hg
    exact .leaf rfl rfl rfl

theorem Faithful.expr {e : Expr} (he : e.Faithful) : (Element.expr e).Faithful where
  code h n := by
    obtain ⟨hdefinition, horderly⟩ := Bool.and_eq_true_iff.mp h
    refine .function ?_ (he horderly n)
    rw [Expr.isDefinition_compile]
    simpa using hdefinition
  step h n g hg := by
    obtain rfl := Value.function.inj hg
    exact he h n

variable {xs : List Element} (hxs : ∀ x ∈ xs, x.Faithful)
include hxs

theorem code_compileAll (h : allOrderly xs = true) (n : Identity) :
    ∀ v ∈ (compileAll xs n).1, v.Code := by
  induction xs generalizing n with
  | nil => exact fun v hv => nomatch hv
  | cons x xs ih =>
      rw [List.forall_mem_cons] at hxs
      obtain ⟨hx, hrest⟩ := Bool.and_eq_true_iff.mp h
      exact List.forall_mem_cons.mpr ⟨hxs.1.code hx n, ih hxs.2 hrest _⟩

theorem orderly_compileAll (h : orderlyBody xs = true) (n : Identity) :
    (∀ v ∈ (compileAll xs n).1.getLast?.toList, v.Code) ∧
      ∀ g, .function g ∈ (compileAll xs n).1.dropLast → g.Orderly := by
  induction xs generalizing n with
  | nil => exact ⟨(fun v hv => nomatch hv), fun g hg => nomatch hg⟩
  | cons x xs ih =>
      rw [List.forall_mem_cons] at hxs
      cases xs with
      | nil =>
          refine ⟨?_, fun g hg => nomatch hg⟩
          intro v hv
          rw [List.mem_singleton.mp hv]
          exact hxs.1.code h n
      | cons y ys =>
          obtain ⟨hx, hrest⟩ := Bool.and_eq_true_iff.mp h
          obtain ⟨hlast, hsteps⟩ := ih hxs.2 hrest (x.compile n).2
          refine ⟨hlast, ?_⟩
          intro g hg
          rcases List.mem_cons.mp hg with heq | hg
          · exact hxs.1.step hx n g heq.symm
          · exact hsteps g hg

end Element

namespace Expr.Faithful

variable {xs : List Element} (hxs : ∀ x ∈ xs, x.Faithful)

theorem empty : Expr.Faithful .empty :=
  fun _ _ => .leaf rfl rfl rfl

include hxs in
theorem arith (op : Char) : (Expr.arith op xs).Faithful := by
  intro h n
  have hcode := Element.code_compileAll hxs h n
  change (Function.thunk _ (.ofArith op _)).Orderly
  unfold Form.ofArith
  split
  · exact .of_values rfl rfl hcode
  · exact .of_values rfl rfl hcode
  · exact .leaf rfl rfl rfl

include hxs in
theorem list : (Expr.list xs).Faithful :=
  fun h n => .of_values rfl rfl (Element.code_compileAll hxs h n)

include hxs in
theorem call (callee : String) : (Expr.call callee xs).Faithful :=
  fun h n => .of_values rfl rfl (Element.code_compileAll hxs h n)

include hxs in
theorem lambda (params : List String) : (Expr.lambda params xs).Faithful := by
  intro h n
  obtain ⟨hlast, hsteps⟩ := Element.orderly_compileAll hxs h n
  exact .mk rfl hlast hsteps

include hxs in
theorem begin : (Expr.begin xs).Faithful := by
  intro h n
  obtain ⟨hlast, hsteps⟩ := Element.orderly_compileAll hxs h n
  exact .mk rfl hlast hsteps

theorem cond {test yes no : Element} (hxs : ∀ x ∈ [test, yes, no], x.Faithful) :
    (Expr.cond test yes no).Faithful := by
  intro h n
  refine .of_values rfl rfl (Element.code_compileAll hxs ?_ n)
  simpa [Element.allOrderly, Expr.orderly, Bool.and_assoc] using h

theorem define {target value : Element} (hvalue : value.Faithful) :
    (Expr.define target value).Faithful := by
  intro h n
  apply Function.Orderly.of_values rfl rfl
  intro v hv
  rw [List.mem_singleton.mp hv]
  exact hvalue.code h _

theorem set {target value : Element} (hvalue : value.Faithful) :
    (Expr.set target value).Faithful := by
  intro h n
  apply Function.Orderly.of_values rfl rfl
  intro v hv
  rw [List.mem_singleton.mp hv]
  exact hvalue.code h _

end Expr.Faithful

/-! ## Reading orderly sources -/

section Reading

variable {ts ts' : List Token}

/-- The payloads of tokens contain no code. -/
def Token.AllData (ts : List Token) : Prop :=
  ∀ t ∈ ts, t.value.isCodeFree = true

theorem Token.AllData.append_left (h : Token.AllData (ts ++ ts')) : Token.AllData ts :=
  fun t ht => h t (List.mem_append_left ts' ht)

theorem Token.AllData.append_right (h : Token.AllData (ts ++ ts')) : Token.AllData ts' :=
  fun t ht => h t (List.mem_append_right ts ht)

/-- The tokens between a head and the closing parenthesis. -/
theorem Token.AllData.between {opening : List Token} {r : Token}
    (h : Token.AllData (opening ++ ts ++ [r])) : Token.AllData ts :=
  h.append_left.append_right

-- The recursion is on how an expression is spelled and not on the expression, as the data
-- in its elements are known from the tokens only.
mutual

theorem Element.Renders.faithful {x : Element} {ts : List Token} :
    Element.Renders x ts → Token.AllData ts → x.Faithful
  | .literal _, hdata => .literal (hdata _ List.mem_cons_self)
  | .name _, _ => .name _
  | .expr he, hdata => .expr (Expr.Renders.faithful he hdata)

theorem Element.RendersAll.faithful {xs : List Element} {ts : List Token} :
    Element.RendersAll xs ts → Token.AllData ts → ∀ x ∈ xs, x.Faithful
  | .nil _, _ => fun _ hx => nomatch hx
  | .cons _ hx hxs, hdata =>
      List.forall_mem_cons.mpr
        ⟨Element.Renders.faithful hx hdata.append_left.append_right,
          Element.RendersAll.faithful hxs hdata.append_right⟩

theorem Expr.Renders.faithful {e : Expr} {ts : List Token} :
    Expr.Renders e ts → Token.AllData ts → e.Faithful
  | .empty _ _, _ => .empty
  | .arith _ _ hxs _ _, hdata => .arith (Element.RendersAll.faithful hxs hdata.between) _
  | .cond _ _ hxs _, hdata => .cond (Element.RendersAll.faithful hxs hdata.between)
  | .define _ _ hxs _, hdata =>
      .define (Element.RendersAll.faithful hxs hdata.between _ (by simp))
  | .set _ _ _ _ hxs _, hdata =>
      .set (Element.RendersAll.faithful hxs hdata.between _ (by simp))
  | .lambda _ _ _ _ _ _ hxs _, hdata =>
      .lambda (Element.RendersAll.faithful hxs hdata.between) _
  | .begin _ _ _ hxs _, hdata => .begin (Element.RendersAll.faithful hxs hdata.between)
  | .list _ _ hxs _, hdata => .list (Element.RendersAll.faithful hxs hdata.between)
  | .call _ _ hxs _, hdata => .call (Element.RendersAll.faithful hxs hdata.between) _

end

end Reading

theorem Token.allData_lex (keywords : Keywords) (source : String) :
    Token.AllData (lex keywords source).tokens := by
  obtain ⟨left, htidy⟩ := Lexed.tidy_ofText keywords 1 source.toList
  exact fun t ht => Value.isCodeFree_of_isAtom (htidy.fits t ht).isAtom_value

theorem Expr.RendersUnit.faithful {es : List Expr} {ts : List Token}
    (h : Expr.RendersUnit es ts) (hdata : Token.AllData ts) : ∀ e ∈ es, e.Faithful := by
  obtain ⟨parts, hparts, rfl⟩ := h
  induction hparts with
  | nil => exact fun e he => nomatch he
  | cons he _ ih =>
      exact List.forall_mem_cons.mpr ⟨he.faithful hdata.append_left, ih hdata.append_right⟩

theorem orderly_compileAll {es : List Expr} (hfaithful : ∀ e ∈ es, e.Faithful)
    (hes : ∀ e ∈ es, e.orderly = true) (n : Identity) :
    ∀ f ∈ (compileAll es n).1, f.Orderly := by
  induction es generalizing n with
  | nil => exact fun f hf => nomatch hf
  | cons e es ih =>
      rw [List.forall_mem_cons] at hfaithful hes
      exact List.forall_mem_cons.mpr ⟨hfaithful.1 hes.1 n, ih hfaithful.2 hes.2 _⟩

/-- An orderly source is compiled to orderly code. -/
theorem orderly_compileAll_of_parse {keywords : Keywords} {source : String} {es : List Expr}
    (hparse : parse (lex keywords source).tokens = .ok es)
    (hes : ∀ e ∈ es, e.orderly = true) (n : Identity) :
    ∀ f ∈ (compileAll es n).1, f.Orderly := by
  have hrenders := parse_eq_ok_iff_renders.mp hparse
  have hdata := Token.allData_lex keywords source
  exact orderly_compileAll (hrenders.faithful hdata) hes n

end MiniLisp
