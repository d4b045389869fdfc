import MiniLisp.Eval.Call
import MiniLisp.Expr.Compile

/-!
# Tame definitions

A definition stores what stands on its right unforced.  An expression that is
stored so is evaluated again at each reading of the name, and if it reads the name
itself, it never ends.  A definition is tame if a literal, a name or a lambda
stands on its right: no expression but a lambda is then ever stored.
-/

namespace MiniLisp

/-- What a tame definition may have on its right. -/
def Element.isStorable : Element → Bool
  | .literal _ | .name _ | .expr (.lambda ..) => true
  | .expr _ => false

mutual

/-- Literals are data, and all definitions are tame. -/
def Element.tame : Element → Bool
  | .literal payload => !payload.isFunction
  | .name _ => true
  | .expr e => e.tame

def Element.tameAll : List Element → Bool
  | [] => true
  | e :: es => e.tame && Element.tameAll es

/-- All definitions at any depth are tame.  What stands in the place of a name is
never evaluated and does not matter. -/
def Expr.tame : Expr → Bool
  | .empty => true
  | .arith _ es | .lambda _ es | .begin es | .list es | .call _ es => Element.tameAll es
  | .cond test yes no => test.tame && yes.tame && no.tame
  | .define _ value => value.isStorable && value.tame
  | .set _ value => value.tame

end

/-- Whether a value is an expression that is not a lambda. -/
def Value.isThunk : Value → Bool
  | .function (.thunk ..) => true
  | _ => false

/-- Data, names, built-in functions, and compiled code in which every definition
stores something that is not a thunk. -/
inductive Value.Plain : Value → Prop
  | data {v : Value} : v.isFunction = false → Plain v
  | deferred (id : Identity) (name : String) : Plain (.function (.deferred id name))
  | native (p : Native) : Plain (.function (.native p))
  | lambda (id : Identity) (params : List String) {body : List Value} :
      (∀ v ∈ body, Plain v) → Plain (.function (.lambda id params body))
  | empty (id : Identity) : Plain (.function (.thunk id .empty))
  | arith (id : Identity) (op : Operator) {operands : List Value} :
      (∀ v ∈ operands, Plain v) → Plain (.function (.thunk id (.arith op operands)))
  | unsupported (id : Identity) (op : Char) : Plain (.function (.thunk id (.unsupported op)))
  | cond (id : Identity) {test yes no : Value} : Plain test → Plain yes → Plain no →
      Plain (.function (.thunk id (.cond test yes no)))
  | define (id : Identity) (target : Value) {value : Value} : Plain value →
      value.isThunk = false → Plain (.function (.thunk id (.define target value)))
  | set (id : Identity) (target : Value) {value : Value} : Plain value →
      Plain (.function (.thunk id (.set target value)))
  | begin (id : Identity) {body : List Value} : (∀ v ∈ body, Plain v) →
      Plain (.function (.thunk id (.begin body)))
  | list (id : Identity) {items : List Value} : (∀ v ∈ items, Plain v) →
      Plain (.function (.thunk id (.list items)))
  | call (id : Identity) (callee : String) {args : List Value} : (∀ v ∈ args, Plain v) →
      Plain (.function (.thunk id (.call callee args)))

/-- What a name may be bound to where only tame code runs. -/
structure Value.Storable (v : Value) : Prop where
  plain : v.Plain
  notThunk : v.isThunk = false

theorem Value.Storable.data {v : Value} (hv : v.isFunction = false) : v.Storable := by
  refine ⟨.data hv, ?_⟩
  cases v with
  | function f => cases hv
  | _ => rfl

theorem Value.Plain.storable_of_isLambda {f : Function} (hf : (Value.function f).Plain)
    (hlambda : f.isLambda = true) : (Value.function f).Storable := by
  refine ⟨hf, ?_⟩
  cases f with
  | thunk id form => cases hlambda
  | _ => rfl

/-! ## Compiling tame expressions -/

theorem Element.isThunk_compile {x : Element} (hstorable : x.isStorable = true)
    (htame : x.tame = true) (n : Identity) : (x.compile n).1.isThunk = false := by
  cases x with
  | literal payload =>
      cases payload with
      | function f => simp [Element.tame, Value.isFunction, Value.asFunction?] at htame
      | _ => rfl
  | name payload => rfl
  | expr e =>
      cases e with
      | lambda params body => rfl
      | _ => simp [Element.isStorable] at hstorable

theorem Value.Plain.ofArith (id : Identity) (op : Char) {operands : List Value}
    (h : ∀ v ∈ operands, v.Plain) : (Value.function (.thunk id (.ofArith op operands))).Plain := by
  unfold Form.ofArith
  split
  · exact .arith id .add h
  · exact .arith id .mul h
  · exact .unsupported id _

mutual

theorem Element.plain_compile (x : Element) (htame : x.tame = true) (n : Identity) :
    (x.compile n).1.Plain := by
  cases x with
  | literal payload =>
      apply Value.Plain.data
      change payload.isFunction = false
      simpa [Element.tame] using htame
  | name payload => exact .deferred n _
  | expr e => exact Expr.plain_compile e htame n

theorem Element.plain_compileAll (xs : List Element) (htame : Element.tameAll xs = true)
    (n : Identity) : ∀ v ∈ (Element.compileAll xs n).1, v.Plain := by
  cases xs with
  | nil =>
      intro v hv
      cases hv
  | cons x xs =>
      obtain ⟨hx, hxs⟩ := Bool.and_eq_true_iff.mp htame
      intro v hv
      rcases List.mem_cons.mp hv with rfl | hv
      · exact Element.plain_compile x hx n
      · exact Element.plain_compileAll xs hxs _ v hv

theorem Expr.plain_compile (e : Expr) (htame : e.tame = true) (n : Identity) :
    (Value.function (e.compile n).1).Plain := by
  cases e with
  | empty => exact .empty n
  | arith op operands =>
      exact .ofArith _ op (Element.plain_compileAll operands htame n)
  | cond test yes no =>
      obtain ⟨htest, hno⟩ := Bool.and_eq_true_iff.mp htame
      obtain ⟨htest, hyes⟩ := Bool.and_eq_true_iff.mp htest
      exact .cond _ (Element.plain_compile test htest _) (Element.plain_compile yes hyes _)
        (Element.plain_compile no hno _)
  | define target value =>
      obtain ⟨hstorable, hvalue⟩ := Bool.and_eq_true_iff.mp htame
      exact .define _ _ (Element.plain_compile value hvalue _)
        (Element.isThunk_compile hstorable hvalue _)
  | set target value => exact .set _ _ (Element.plain_compile value htame _)
  | lambda params body => exact .lambda _ params (Element.plain_compileAll body htame n)
  | begin body => exact .begin _ (Element.plain_compileAll body htame n)
  | list items => exact .list _ (Element.plain_compileAll items htame n)
  | call callee args => exact .call _ callee (Element.plain_compileAll args htame n)

end

theorem plain_compileAll (es : List Expr) (htame : ∀ e ∈ es, e.tame = true) (n : Identity) :
    ∀ f ∈ (compileAll es n).1, (Value.function f).Plain := by
  induction es generalizing n with
  | nil =>
      intro f hf
      cases hf
  | cons e es ih =>
      intro f hf
      rcases List.mem_cons.mp hf with rfl | hf
      · exact e.plain_compile (htame e List.mem_cons_self) n
      · exact ih (fun x hx => htame x (List.mem_cons_of_mem e hx)) _ f hf

end MiniLisp
