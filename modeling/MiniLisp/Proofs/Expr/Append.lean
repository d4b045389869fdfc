import MiniLisp.Proofs.Interpreter.Compiled
import MiniLisp.Proofs.Expr.Descent

/-!
# Reading further down a unit

The same tokens may stand at the start of a unit, or further down: behind other
expressions, and on other lines.  No step of a reader looks at the expressions that
are complete, and lines are only passed on to errors.  The tokens are therefore read
in the same way in both places.  In particular, reading goes from left to right: a
reader between two expressions has nothing but the complete ones behind it, and
inside an expression every error but the end of the tokens is known at the token that
causes it.
-/

namespace MiniLisp

def Token.relabel (g : Nat → Nat) (t : Token) : Token :=
  { t with line := g t.line }

section Relabelled

variable (g : Nat → Nat) (t : Token)

@[simp] theorem Token.kind_relabel : (t.relabel g).kind = t.kind := rfl

@[simp] theorem Token.value_relabel : (t.relabel g).value = t.value := rfl

@[simp] theorem Token.name_relabel : (t.relabel g).name = t.name := rfl

@[simp] theorem Token.operator_relabel : (t.relabel g).operator = t.operator := rfl

@[simp] theorem Token.line_relabel : (t.relabel g).line = g t.line := rfl

end Relabelled

def ParseError.relabel (g : Nat → Nat) : ParseError → ParseError
  | .unexpectedToken expected found line situation =>
      .unexpectedToken expected found (g line) situation
  | .unexpectedEnd expected situation => .unexpectedEnd expected situation
  | .unexpectedElement found line => .unexpectedElement found (g line)
  | .invalidHead found line => .invalidHead found (g line)
  | .arity form expected found line => .arity form expected found (g line)
  | .unknownForm keyword line => .unknownForm keyword (g line)
  | .invalidParameter found line => .invalidParameter found (g line)

def Pending.relabel (g : Nat → Nat) (p : Pending) : Pending :=
  { p with line := g p.line }

def Place.relabel (g : Nat → Nat) : Place → Place
  | .between => .between
  | .head => .head
  | .bang line => .bang (g line)
  | .paramsStart line => .paramsStart (g line)
  | .params line names => .params (g line) names
  | .elements p => .elements (p.relabel g)

theorem Head.build_relabel (g : Nat → Nat) (head : Head) (line : Nat) (es : List Element) :
    head.build (g line) es = (head.build line es).mapError (.relabel g) := by
  unfold Head.build
  split <;> first | rfl | (split <;> rfl)

namespace Reader

/-- The reader at the same place of the same tokens, when they stand behind complete
expressions, of which the last is the first, and on other lines. -/
def moved (earlier : List Expr) (g : Nat → Nat) (r : Reader) : Reader :=
  ⟨r.done ++ earlier, r.outer.map (.relabel g), r.place.relabel g⟩

/-- A result of the moved reader. -/
def movedResult (earlier : List Expr) (g : Nat → Nat) (result : Except ParseError Reader) :
    Except ParseError Reader :=
  (moved earlier g <$> result).mapError (.relabel g)

section Moved

variable (earlier : List Expr) (g : Nat → Nat) (r : Reader) (t : Token)

theorem moved_close (e : Expr) :
    (r.moved earlier g).close e = (r.close e).moved earlier g := by
  obtain ⟨done, outer, place⟩ := r
  cases outer <;> rfl

theorem moved_keyword :
    (r.moved earlier g).keyword (t.relabel g) = movedResult earlier g (r.keyword t) := by
  unfold keyword
  simp only [Token.name_relabel, Token.line_relabel]
  split <;> rfl

theorem moved_takeHead :
    (r.moved earlier g).takeHead (t.relabel g) = movedResult earlier g (r.takeHead t) := by
  unfold takeHead
  simp only [Token.kind_relabel, Token.name_relabel, Token.operator_relabel,
    Token.line_relabel]
  split
  · rfl
  · exact moved_keyword earlier g r t
  · rfl
  · exact congrArg Except.ok (moved_close earlier g r .empty)
  · rfl

theorem moved_takeElement (p : Pending) :
    (r.moved earlier g).takeElement (p.relabel g) (t.relabel g) =
      movedResult earlier g (r.takeElement p t) := by
  unfold takeElement
  simp only [Token.kind_relabel, Token.value_relabel, Token.line_relabel]
  split <;> try rfl
  have hbuild : (p.relabel g).build = p.build.mapError (.relabel g) :=
    Head.build_relabel g p.head p.line p.elements.reverse
  rw [hbuild]
  cases p.build with
  | error e => rfl
  | ok e => exact congrArg Except.ok (moved_close earlier g r e)

theorem moved_takeParam (line : Nat) (names : List String) :
    (r.moved earlier g).takeParam (g line) names (t.relabel g) =
      movedResult earlier g (r.takeParam line names t) := by
  unfold takeParam
  simp only [Token.kind_relabel, Token.name_relabel, Token.line_relabel]
  split <;> rfl

theorem moved_expectParen (place : Place) (situation : Situation) :
    (r.moved earlier g).expectParen (place.relabel g) situation (t.relabel g) =
      movedResult earlier g (r.expectParen place situation t) := by
  by_cases hkind : t.kind = .lparen
  · simp only [expectParen, Token.kind_relabel, hkind, if_true]
    rfl
  · simp only [expectParen, Token.kind_relabel, hkind, if_false]
    rfl

/-- A step is the same further down. -/
theorem moved_step :
    (r.moved earlier g).step (t.relabel g) = movedResult earlier g (r.step t) := by
  obtain ⟨done, outer, place⟩ := r
  cases place with
  | between => exact moved_expectParen earlier g _ t .head .start
  | head => exact moved_takeHead earlier g _ t
  | bang line =>
      have helement :=
        moved_takeElement earlier g ⟨done, outer, .bang line⟩ t ⟨.set, line, []⟩
      by_cases hkind : t.kind = .not
      · simp only [step, moved, Place.relabel, Token.kind_relabel, hkind, if_true]
        rfl
      · simpa only [step, moved, Place.relabel, Pending.relabel, Token.kind_relabel, hkind,
          if_false] using helement
  | paramsStart line =>
      exact moved_expectParen earlier g _ t (.params line []) .paramsStart
  | params line names => exact moved_takeParam earlier g _ t line names
  | elements p => exact moved_takeElement earlier g _ t p

theorem moved_foldlM (ts : List Token) :
    (ts.map (.relabel g)).foldlM step (r.moved earlier g) =
      movedResult earlier g (ts.foldlM step r) := by
  induction ts generalizing r with
  | nil => rfl
  | cons t ts ih =>
      rw [List.map_cons, List.foldlM_cons, List.foldlM_cons, moved_step]
      cases r.step t with
      | error e => rfl
      | ok next => exact ih next

theorem moved_finish :
    (r.moved earlier g).finish =
      ((earlier.reverse ++ ·) <$> r.finish).mapError (.relabel g) := by
  obtain ⟨done, outer, place⟩ := r
  cases place with
  | between =>
      change Except.ok (done ++ earlier).reverse = Except.ok (earlier.reverse ++ done.reverse)
      rw [List.reverse_append]
  | _ => rfl

end Moved

variable {r : Reader}

/-- Between the expressions of a unit, a reader has nothing but those behind it. -/
theorem eq_moved_of_finish {ts : List Token} {es : List Expr} (hreads : Reads .initial ts r)
    (hfinish : r.finish = .ok es) (g : Nat → Nat) : r = initial.moved es.reverse g := by
  have hstart : Consumed .initial [] := .between Expr.RendersUnit.nil
  cases hstart.reads hreads with
  | @between done _ _ =>
      cases hfinish
      simp [moved, initial, Place.relabel]
  | inside _ _ hplace => cases hplace <;> cases hfinish

theorem unexpectedEnd_of_finish {e : ParseError} (hfinish : r.finish = .error e) :
    ∃ kind situation, e = .unexpectedEnd kind situation := by
  unfold finish at hfinish
  split at hfinish <;> cases hfinish <;> exact ⟨_, _, rfl⟩

end Reader

/-- What stands behind complete expressions is read as it would be by itself, on
whatever lines. -/
theorem parse_append_relabel {a : List Token} {es : List Expr} (ha : parse a = .ok es)
    (g : Nat → Nat) (b : List Token) :
    parse (a ++ b.map (.relabel g)) = ((es ++ ·) <$> parse b).mapError (.relabel g) := by
  obtain ⟨r, hreads, hfinish⟩ := parse_eq_ok.mp ha
  have hr := Reader.eq_moved_of_finish hreads hfinish g
  have hfirst : a.foldlM Reader.step .initial = .ok (Reader.initial.moved es.reverse g) :=
    hr ▸ hreads
  unfold parse
  rw [List.foldlM_append, hfirst]
  change (b.map (.relabel g)).foldlM Reader.step (Reader.initial.moved es.reverse g) >>=
    Reader.finish = _
  rw [Reader.moved_foldlM]
  cases b.foldlM Reader.step .initial with
  | error e => rfl
  | ok r' =>
      change (r'.moved es.reverse g).finish = ((es ++ ·) <$> r'.finish).mapError (.relabel g)
      rw [Reader.moved_finish, List.reverse_reverse]

theorem parse_append_of_ok {a : List Token} {es : List Expr} (ha : parse a = .ok es)
    (b : List Token) : parse (a ++ b) = (es ++ ·) <$> parse b := by
  have htokens : b.map (.relabel id) = b := List.map_id b
  have happend := parse_append_relabel ha id b
  rw [htokens] at happend
  rw [happend]
  cases parse b with
  | ok more => rfl
  | error e => cases e <;> rfl

theorem parse_append_of_error {a : List Token} {e : ParseError} (ha : parse a = .error e)
    (he : ∀ kind situation, e ≠ .unexpectedEnd kind situation) (b : List Token) :
    parse (a ++ b) = .error e := by
  unfold parse at ha ⊢
  rw [List.foldlM_append]
  cases hfold : a.foldlM Reader.step .initial with
  | error e' =>
      rw [hfold] at ha
      cases ha
      rfl
  | ok r =>
      rw [hfold] at ha
      obtain ⟨kind, situation, hend⟩ := Reader.unexpectedEnd_of_finish ha
      exact absurd hend (he kind situation)

/-- The functions of expressions that follow are numbered on from those before. -/
theorem compileAll_append (es es' : List Expr) (n : Identity) :
    compileAll (es ++ es') n =
      ((compileAll es n).1 ++ (compileAll es' (compileAll es n).2).1,
        (compileAll es' (compileAll es n).2).2) := by
  induction es generalizing n with
  | nil => rfl
  | cons e es ih =>
      have hcons : ∀ rest, compileAll (e :: rest) n =
          ((e.compile n).1 :: (compileAll rest (e.compile n).2).1,
            (compileAll rest (e.compile n).2).2) := fun _ => rfl
      rw [List.cons_append, hcons, hcons, ih]
      rfl

namespace Interpreter

theorem compile_of_ok {i : Interpreter} {ts : List Token} {es : List Expr}
    (hts : parse ts = .ok es) :
    i.compile ts =
      (.ok (compileAll es i.fresh).1,
        { i.tell (parseEvents ts) with fresh := (compileAll es i.fresh).2 }) := by
  unfold compile
  rw [hts]
  rfl

theorem compile_of_error {i : Interpreter} {ts : List Token} {e : ParseError}
    (hts : parse ts = .error e) : i.compile ts = (.error e, i.tell (parseEvents ts)) := by
  unfold compile
  rw [hts]

/-- Tokens are read from left to right.  What stands behind complete expressions is
read and compiled as it would be by itself, after them, and fails as it would by
itself; and no token changes an error that was met before it, unless that was the
end of the tokens.  All of this holds of the descent too, which reads any tokens with the
same result. -/
theorem compile_left_to_right (i : Interpreter) (a b : List Token) :
    (∀ es, parse a = .ok es →
      (∀ more, parse b = .ok more →
        parse (a ++ b) = .ok (es ++ more) ∧
          ∃ p q, (i.compile a).1 = .ok p ∧ ((i.compile a).2.compile b).1 = .ok q ∧
            (i.compile (a ++ b)).1 = .ok (p ++ q)) ∧
      ∀ e, parse b = .error e →
        parse (a ++ b) = .error e ∧ (i.compile (a ++ b)).1 = .error e) ∧
    (∀ e, parse a = .error e → (∀ kind situation, e ≠ .unexpectedEnd kind situation) →
      parse (a ++ b) = .error e ∧ (i.compile (a ++ b)).1 = .error e) ∧
    ∀ ts, descend ts = parse ts := by
  refine ⟨fun es ha => ⟨fun more hb => ?_, fun e hb => ?_⟩, fun e ha he => ?_, descend_eq_parse⟩
  · have hparse : parse (a ++ b) = .ok (es ++ more) := by
      rw [parse_append_of_ok ha, hb]
      rfl
    refine ⟨hparse, (compileAll es i.fresh).1,
      (compileAll more (compileAll es i.fresh).2).1, ?_, ?_, ?_⟩
    · rw [compile_of_ok ha]
    · rw [compile_of_ok ha, compile_of_ok hb]
    · rw [compile_of_ok hparse, compileAll_append]
  · have hparse : parse (a ++ b) = .error e := by
      rw [parse_append_of_ok ha, hb]
      rfl
    exact ⟨hparse, by rw [compile_of_error hparse]⟩
  · have hparse := parse_append_of_error ha he b
    exact ⟨hparse, by rw [compile_of_error hparse]⟩

/-- The tokens of `(f)` and of `(* 2)`, which lacks an operand, before and behind one
another. -/
theorem compile_left_to_right_operand :
    let call : List Token :=
      [⟨.lparen, .str "(", 1⟩, ⟨.identifier, .str "f", 1⟩, ⟨.rparen, .str ")", 1⟩]
    let product : List Token :=
      [⟨.lparen, .str "(", 1⟩, ⟨.arith, .str "*", 1⟩, ⟨.int, .int 2, 1⟩, ⟨.rparen, .str ")", 1⟩]
    let missing := ParseError.arity "*" (.atLeast 2) 1 1
    let i := Interpreter.new .standard
    parse call = .ok [.call "f" []] ∧ parse product = .error missing ∧
      parse (call ++ call) = .ok [.call "f" [], .call "f" []] ∧
      (∃ p q, (i.compile call).1 = .ok p ∧ ((i.compile call).2.compile call).1 = .ok q ∧
        (i.compile (call ++ call)).1 = .ok (p ++ q)) ∧
      (i.compile (call ++ product)).1 = .error missing ∧
      (i.compile (product ++ call)).1 = .error missing := by
  intro call product missing i
  have hcall : parse call = .ok [.call "f" []] := rfl
  have hproduct : parse product = .error missing := rfl
  obtain ⟨hparse, hcompile⟩ := ((compile_left_to_right i call call).1 _ hcall).1 _ hcall
  have hbehind := ((compile_left_to_right i call product).1 _ hcall).2 _ hproduct
  have hbefore := (compile_left_to_right i product call).2.1 _ hproduct (fun _ _ => nofun)
  exact ⟨hcall, hproduct, hparse, hcompile, hbehind.2, hbefore.2⟩

end Interpreter
end MiniLisp
