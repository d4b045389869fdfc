import MiniLisp.Proofs.Eval.Simulation
import MiniLisp.Proofs.Interpreter.Compiled
import MiniLisp.Proofs.Token.Contract

/-!
# Names and operators in code

A token without a text would stand for the empty name and for the operator `?`.  Tokens
that were read from a text carry what their kinds promise, and so neither occurs: the
names that an expression takes from identifiers are names, also where they are to be
bound, and its operators are the four of arithmetic.  Of these only two are left without
a meaning when the expression is compiled.
-/

namespace MiniLisp

/-! ## Code -/

mutual

/-- Names that are read or called are names, parameters are, and the operators without a
meaning are those of subtraction and division. -/
def Function.isSpelled : Function → Bool
  | .thunk _ form => form.isSpelled
  | .lambda _ params body => params.all isName && Value.allSpelled body
  | .deferred _ name => isName name
  | .native _ | .host _ _ _ none => true
  | .host _ _ _ (some answer) => answer.isSpelled

def Form.isSpelled : Form → Bool
  | .empty => true
  | .arith _ vs | .begin vs | .list vs => Value.allSpelled vs
  | .unsupported op => op == '-' || op == '/'
  | .cond test yes no => test.isSpelled && yes.isSpelled && no.isSpelled
  | .define target value | .set target value => target.isSpelled && value.isSpelled
  | .call callee args => isName callee && Value.allSpelled args

def Value.isSpelled : Value → Bool
  | .list items => Value.allSpelled items
  | .function f => f.isSpelled
  | .int _ | .float _ | .str _ | .bool _ | .null => true

def Value.allSpelled : List Value → Bool
  | [] => true
  | v :: vs => v.isSpelled && Value.allSpelled vs

end

theorem Value.allSpelled_iff {vs : List Value} :
    Value.allSpelled vs = true ↔ ∀ v ∈ vs, v.isSpelled = true := by
  induction vs with
  | nil => simp [Value.allSpelled]
  | cons v vs ih => simp [Value.allSpelled, ih]

theorem Value.isSpelled_of_isAtom {v : Value} (h : v.isAtom = true) : v.isSpelled = true := by
  cases v with
  | list items => cases h
  | function f => cases h
  | _ => rfl

theorem Function.isSpelled_of_mem_parts {f : Function} (hf : f.isSpelled = true) {v : Value}
    (hv : v ∈ f.parts) : v.isSpelled = true := by
  cases f with
  | thunk id form =>
      cases form with
      | empty | unsupported _ => cases hv
      | arith _ _ | list _ | begin _ => exact Value.allSpelled_iff.mp hf v hv
      | call callee args =>
          exact Value.allSpelled_iff.mp (Bool.and_eq_true_iff.mp hf).2 v hv
      | cond test yes no =>
          simp only [Function.isSpelled, Form.isSpelled, Bool.and_eq_true] at hf
          simp only [Function.parts, Form.parts, Form.values, List.mem_cons, List.not_mem_nil,
            or_false] at hv
          rcases hv with rfl | rfl | rfl
          · exact hf.1.1
          · exact hf.1.2
          · exact hf.2
      | define target value | set target value =>
          rw [List.mem_singleton.mp hv]
          exact (Bool.and_eq_true_iff.mp hf).2
  | lambda id params body =>
      exact Value.allSpelled_iff.mp (Bool.and_eq_true_iff.mp hf).2 v hv
  | _ => cases hv

/-! ## Expressions -/

mutual

/-- A name is a name in every position, that of a name to bind included. -/
def Element.isSpelled : Element → Bool
  | .literal payload => payload.isSpelled
  | .name payload => payload.asText?.any isName
  | .expr e => e.isSpelled

def Element.allSpelled : List Element → Bool
  | [] => true
  | x :: xs => x.isSpelled && Element.allSpelled xs

def Expr.isSpelled : Expr → Bool
  | .empty => true
  | .arith op xs => TokenKind.arith.characters.contains op && Element.allSpelled xs
  | .cond test yes no => test.isSpelled && yes.isSpelled && no.isSpelled
  | .define target value | .set target value => target.isSpelled && value.isSpelled
  | .lambda params xs => params.all isName && Element.allSpelled xs
  | .begin xs | .list xs => Element.allSpelled xs
  | .call callee xs => isName callee && Element.allSpelled xs

end

theorem isName_getD {name : Option String} (h : name.any isName = true) :
    isName (name.getD "") = true := by
  cases name with
  | none => cases h
  | some name => exact h

mutual

theorem Element.CompilesTo.isSpelled {x : Element} {v : Value} :
    Element.CompilesTo x v → x.isSpelled = true → v.isSpelled = true
  | .literal _, hx => hx
  | .name _ _, hx => isName_getD hx
  | .expr he, hx => Expr.CompilesTo.isSpelled he hx

theorem Element.TargetsTo.isSpelled {x : Element} {v : Value} :
    Element.TargetsTo x v → x.isSpelled = true → v.isSpelled = true
  | .literal _, hx => hx
  | .name payload, hx => by
      cases payload with
      | str name => rfl
      | _ => cases hx
  | .expr he, hx => Expr.CompilesTo.isSpelled he hx

theorem Element.CompileAllTo.isSpelled {xs : List Element} {vs : List Value} :
    Element.CompileAllTo xs vs → Element.allSpelled xs = true → Value.allSpelled vs = true
  | .nil, _ => rfl
  | .cons hx hxs, h => by
      obtain ⟨hhead, htail⟩ := Bool.and_eq_true_iff.mp h
      exact Bool.and_eq_true_iff.mpr
        ⟨Element.CompilesTo.isSpelled hx hhead, Element.CompileAllTo.isSpelled hxs htail⟩

theorem Expr.CompilesTo.isSpelled {e : Expr} {f : Function} :
    Expr.CompilesTo e f → e.isSpelled = true → f.isSpelled = true
  | .empty _, _ => rfl
  | .add _ hxs, h => Element.CompileAllTo.isSpelled hxs h
  | .mul _ hxs, h => Element.CompileAllTo.isSpelled hxs h
  | .unsupported _ _ hadd hmul, h => by
      have hop := (Bool.and_eq_true_iff.mp h).1
      simp [TokenKind.characters, hadd, hmul] at hop
      simpa [Function.isSpelled, Form.isSpelled] using hop
  | .cond _ htest hyes hno, h => by
      simp only [Expr.isSpelled, Bool.and_eq_true] at h
      simp only [Function.isSpelled, Form.isSpelled, Bool.and_eq_true]
      exact ⟨⟨Element.CompilesTo.isSpelled htest h.1.1, Element.CompilesTo.isSpelled hyes h.1.2⟩,
        Element.CompilesTo.isSpelled hno h.2⟩
  | .define _ htarget hvalue, h => by
      obtain ⟨hleft, hright⟩ := Bool.and_eq_true_iff.mp h
      exact Bool.and_eq_true_iff.mpr ⟨Element.TargetsTo.isSpelled htarget hleft,
        Element.CompilesTo.isSpelled hvalue hright⟩
  | .set _ htarget hvalue, h => by
      obtain ⟨hleft, hright⟩ := Bool.and_eq_true_iff.mp h
      exact Bool.and_eq_true_iff.mpr ⟨Element.TargetsTo.isSpelled htarget hleft,
        Element.CompilesTo.isSpelled hvalue hright⟩
  | .lambda _ _ hxs, h => by
      obtain ⟨hparams, hbody⟩ := Bool.and_eq_true_iff.mp h
      exact Bool.and_eq_true_iff.mpr ⟨hparams, Element.CompileAllTo.isSpelled hxs hbody⟩
  | .begin _ hxs, h => Element.CompileAllTo.isSpelled hxs h
  | .list _ hxs, h => Element.CompileAllTo.isSpelled hxs h
  | .call _ _ hxs, h => by
      obtain ⟨hcallee, hargs⟩ := Bool.and_eq_true_iff.mp h
      exact Bool.and_eq_true_iff.mpr ⟨hcallee, Element.CompileAllTo.isSpelled hxs hargs⟩

end

/-! ## Tokens -/

namespace Token.Fits

variable {keywords : Keywords} {t : Token} (h : t.Fits keywords)
include h

theorem isName_name (hkind : t.kind = .identifier) : t.text?.any isName = true := by
  unfold Token.Fits at h
  rw [hkind] at h
  obtain ⟨word, hvalue, hname, _⟩ := h
  rw [Token.text?, hvalue]
  exact hname

theorem operator_mem (hkind : t.kind = .arith) : t.operator ∈ TokenKind.arith.characters := by
  unfold Token.Fits at h
  rw [hkind] at h
  obtain ⟨c, hc, hvalue⟩ := h
  have hoperator : t.operator = c := by
    simp [Token.operator, Token.name, Token.text?, hvalue, Value.asText?]
  rwa [hoperator]

end Token.Fits

/-- The tokens between a head and the closing parenthesis. -/
theorem Token.forall_between {P : Token → Prop} {opening ts : List Token} {r : Token}
    (h : ∀ t ∈ opening ++ ts ++ [r], P t) : ∀ t ∈ ts, P t :=
  fun t ht => h t (List.mem_append_left _ (List.mem_append_right _ ht))

section Rendering

variable {keywords : Keywords}

mutual

theorem Element.Renders.isSpelled {x : Element} {ts : List Token} :
    Element.Renders x ts → (∀ t ∈ ts, t.Fits keywords) → x.isSpelled = true
  | .literal _, hts => Value.isSpelled_of_isAtom (hts _ List.mem_cons_self).isAtom_value
  | .name hkind, hts => (hts _ List.mem_cons_self).isName_name hkind
  | .expr he, hts => Expr.Renders.isSpelled he hts

theorem Element.RendersAll.isSpelled {xs : List Element} {ts : List Token} :
    Element.RendersAll xs ts → (∀ t ∈ ts, t.Fits keywords) → Element.allSpelled xs = true
  | .nil _, _ => rfl
  | .cons _ hx hxs, hts => by
      obtain ⟨hfirst, hrest⟩ := List.forall_mem_append.mp hts
      have hx := Element.Renders.isSpelled hx (List.forall_mem_append.mp hfirst).2
      exact Bool.and_eq_true_iff.mpr ⟨hx, Element.RendersAll.isSpelled hxs hrest⟩

theorem Expr.Renders.isSpelled {e : Expr} {ts : List Token} :
    Expr.Renders e ts → (∀ t ∈ ts, t.Fits keywords) → e.isSpelled = true
  | .empty _ _, _ => rfl
  | .arith _ hop hxs _ _, hts => by
      have hchar := (hts _ (by simp)).operator_mem hop
      exact Bool.and_eq_true_iff.mpr ⟨List.contains_iff_mem.mpr hchar,
        Element.RendersAll.isSpelled hxs (Token.forall_between hts)⟩
  | .cond _ _ hxs _, hts => by
      have hall := Element.RendersAll.isSpelled hxs (Token.forall_between hts)
      simpa [Element.allSpelled, Expr.isSpelled, Bool.and_assoc] using hall
  | .define _ _ hxs _, hts => by
      have hall := Element.RendersAll.isSpelled hxs (Token.forall_between hts)
      simpa [Element.allSpelled, Expr.isSpelled] using hall
  | .set _ _ _ _ hxs _, hts => by
      have hall := Element.RendersAll.isSpelled hxs (Token.forall_between hts)
      simpa [Element.allSpelled, Expr.isSpelled] using hall
  | .lambda _ _ _ hparams _ _ hxs _, hts => by
      refine Bool.and_eq_true_iff.mpr ⟨?_, Element.RendersAll.isSpelled hxs
        (Token.forall_between hts)⟩
      rw [List.all_map, List.all_eq_true]
      intro t ht
      exact isName_getD ((hts t (by simp [ht])).isName_name (hparams t ht))
  | .begin _ _ _ hxs _, hts => Element.RendersAll.isSpelled hxs (Token.forall_between hts)
  | .list _ _ hxs _, hts => Element.RendersAll.isSpelled hxs (Token.forall_between hts)
  | .call _ hcallee hxs _, hts => by
      have hname := isName_getD ((hts _ (by simp)).isName_name hcallee)
      exact Bool.and_eq_true_iff.mpr ⟨hname,
        Element.RendersAll.isSpelled hxs (Token.forall_between hts)⟩

end

theorem Expr.RendersUnit.isSpelled {es : List Expr} {ts : List Token}
    (h : Expr.RendersUnit es ts) (hts : ∀ t ∈ ts, t.Fits keywords) :
    ∀ e ∈ es, e.isSpelled = true := by
  obtain ⟨parts, hparts, rfl⟩ := h
  induction hparts with
  | nil => exact nofun
  | cons he _ ih =>
      obtain ⟨hfirst, hrest⟩ := List.forall_mem_append.mp hts
      exact List.forall_mem_cons.mpr ⟨he.isSpelled hfirst, ih hrest⟩

end Rendering

theorem isSpelled_of_compilesTo {es : List Expr} {program : List Function}
    (h : List.Forall₂ Expr.CompilesTo es program) (hes : ∀ e ∈ es, e.isSpelled = true) :
    ∀ f ∈ program, f.isSpelled = true := by
  induction h with
  | nil => exact nofun
  | cons he _ ih =>
      rw [List.forall_mem_cons] at hes
      exact List.forall_mem_cons.mpr ⟨he.isSpelled hes.1, ih hes.2⟩

/-- The expressions of a text, and the code that they are compiled to. -/
theorem isSpelled_of_parse {keywords : Keywords} {source : String} {es : List Expr}
    (h : parse (lex keywords source).tokens = .ok es) :
    (∀ e ∈ es, e.isSpelled = true) ∧
      ∀ n, ∀ f ∈ (compileAll es n).1, f.isSpelled = true := by
  obtain ⟨left, htidy⟩ := Lexed.tidy_ofText keywords 1 source.toList
  have hes := (parse_eq_ok_iff_renders.mp h).isSpelled htidy.fits
  exact ⟨hes, fun n => isSpelled_of_compilesTo (compileAll_compilesTo es n) hes⟩

end MiniLisp
