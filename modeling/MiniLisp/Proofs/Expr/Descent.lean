import MiniLisp.Expr.Descent
import MiniLisp.Proofs.Expr.Reading

/-!
# The reader and the descent agree

A reader takes one token after the other, and the functions of the descent call one another.
They read the same expressions from the same tokens, and they report the same errors.  The
connection is made at each function of the descent: a reader that has come to its place goes on
as the function does, and then with the tokens that the function leaves.
-/

namespace MiniLisp

/-- What a reader gives once it has taken the tokens that are left. -/
def Reader.readOn (r : Reader) (ts : List Token) : Except ParseError (List Expr) :=
  ts.foldlM step r >>= finish

theorem Reader.readOn_nil (r : Reader) : r.readOn [] = r.finish := rfl

theorem Reader.readOn_cons (r : Reader) (t : Token) (ts : List Token) :
    r.readOn (t :: ts) = r.step t >>= fun r => r.readOn ts := by
  unfold readOn
  rw [List.foldlM_cons, bind_assoc]

def Pending.pushAll (p : Pending) (xs : List Element) : Pending :=
  { p with elements := xs.reverse ++ p.elements }

theorem Pending.pushAll_cons (p : Pending) (x : Element) (xs : List Element) :
    p.pushAll (x :: xs) = (p.push x).pushAll xs := by
  simp [pushAll, push]

namespace Descent

section Cursor

variable {kind : TokenKind} {t : Token} (rest : List Token)

theorem expect_of_kind (situation : Situation) (ht : t.kind = kind) :
    expect kind situation (t :: rest) = .ok ⟨rest, Nat.lt_succ_self _⟩ :=
  if_pos ht

theorem expect_of_ne (situation : Situation) (ht : t.kind ≠ kind) :
    expect kind situation (t :: rest) =
      .error (.unexpectedToken kind t.kind t.line situation) :=
  if_neg ht

theorem eat_of_kind (ht : t.kind = kind) : eat kind (t :: rest) = ⟨rest, Nat.le_succ _⟩ :=
  if_pos ht

theorem eat_of_ne (ht : t.kind ≠ kind) : eat kind (t :: rest) = ⟨t :: rest, Nat.le_refl _⟩ :=
  if_neg ht

end Cursor

/-- The reader takes the closing parenthesis of an expression and hands the expression on. -/
def closing (r : Reader) (e : Expr) (ts : List Token) : Except ParseError (List Expr) := do
  let left ← expect .rparen .finish ts
  (r.close e).readOn left.val

/-- Among the elements of an expression, a reader goes on with what the descent finds. -/
def ElementsAgree (ts : List Token) : Prop :=
  ∀ (r : Reader) (p : Pending),
    (r.moveTo (.elements p)).readOn ts =
      elements ts >>= fun x => (r.moveTo (.elements (p.pushAll x.1))).readOn x.2.val

theorem readOn_names (r : Reader) (line : Nat) (earlier : List String) (ts : List Token) :
    (r.moveTo (.params line earlier)).readOn ts =
      names ts >>= fun x =>
        (r.moveTo (.elements ⟨.lambda (earlier.reverse ++ x.1), line, []⟩)).readOn x.2.val := by
  induction ts generalizing earlier with
  | nil => rfl
  | cons t ts ih =>
      rw [Reader.readOn_cons]
      change Reader.takeParam _ line earlier t >>= _ = _
      unfold Reader.takeParam names
      cases t.kind with
      | rparen =>
          change _ = (r.moveTo (.elements ⟨.lambda (earlier.reverse ++ []), line, []⟩)).readOn ts
          rw [List.append_nil]
          rfl
      | identifier =>
          change (r.moveTo (.params line (t.name :: earlier))).readOn ts = _
          rw [ih]
          cases names ts with
          | error e => rfl
          | ok x =>
              simp only [List.reverse_cons, List.append_assoc]
              rfl
      | _ => rfl

/-- Once an element has been found, the other elements are read behind it. -/
def among {ts : List Token} : Found ts → Except ParseError (List Element × NoLonger ts)
  | .closing left => .ok ([], left)
  | .element x left => do
      let more ← elements left.val
      return (x :: more.1, left.then more.2)

theorem elements_eq (ts : List Token) : elements ts = element ts >>= among := by
  rw [elements]
  cases element ts with
  | error e => rfl
  | ok found => cases found <;> rfl

/-! ## The end of the elements -/

def Closes (ts : List Token) : Prop :=
  ∃ t rest, ts = t :: rest ∧ t.kind = .rparen

private theorem bind_eq_ok {x : Except ParseError α} {f : α → Except ParseError β} {b : β}
    (h : x >>= f = .ok b) : ∃ a, x = .ok a ∧ f a = .ok b := by
  cases x with
  | error e => cases h
  | ok a => exact ⟨a, rfl, h⟩

theorem closes_of_closing {ts : List Token} {left : NoLonger ts}
    (h : element ts = .ok (.closing left)) : Closes left.val := by
  rw [element] at h
  split at h
  · cases h
  next t rest _ _ =>
    cases ht : t.kind with
    | rparen =>
        simp only [ht] at h
        cases h
        exact ⟨t, rest, rfl, ht⟩
    | lparen =>
        simp only [ht] at h
        obtain ⟨x, _, hx⟩ := bind_eq_ok h
        cases hx
    | _ =>
        simp only [ht] at h
        cases h

/-- Elements are read up to a closing parenthesis. -/
theorem closes_of_elements {ts : List Token} {x : List Element × NoLonger ts}
    (h : elements ts = .ok x) : Closes x.2.val := by
  rw [elements_eq] at h
  obtain ⟨found, hfound, h⟩ := bind_eq_ok h
  cases found with
  | closing left =>
      cases h
      exact closes_of_closing hfound
  | element y left =>
      obtain ⟨z, hrest, hz⟩ := bind_eq_ok h
      cases hz
      exact closes_of_elements (x := z) hrest
termination_by ts.length
decreasing_by exact left.property

/-! ## Forms -/

/-- To read the target of a binding first and then the rest is to read the elements. -/
theorem binding_eq_form (head : Head) (line : Nat) (ts : List Token) :
    binding head line ts = form head line ts := by
  rw [binding, form, elements]
  cases element ts with
  | error e => rfl
  | ok found =>
      cases found with
      | closing left => rfl
      | element x left =>
          change (elements left.val >>= _) = (elements left.val >>= _) >>= _
          cases elements left.val <;> rfl

theorem closes_of_form {head : Head} {line : Nat} {ts : List Token} {x : Expr × NoLonger ts}
    (h : form head line ts = .ok x) : Closes x.2.val := by
  rw [form] at h
  obtain ⟨y, hy, h⟩ := bind_eq_ok h
  obtain ⟨e, _, h⟩ := bind_eq_ok h
  cases h
  exact closes_of_elements hy

theorem closes_of_keyword {t : Token} {ts : List Token} {x : Expr × NoLonger ts}
    (h : keyword t ts = .ok x) : Closes x.2.val := by
  rw [keyword] at h
  split at h
  · exact closes_of_form h
  · rw [binding_eq_form] at h
    exact closes_of_form h
  · obtain ⟨y, hy, h⟩ := bind_eq_ok h
    rw [binding_eq_form] at hy
    cases h
    exact closes_of_form (x := y) hy
  · obtain ⟨y, _, h⟩ := bind_eq_ok h
    obtain ⟨z, hz, h⟩ := bind_eq_ok h
    cases h
    exact closes_of_form (x := z) hz
  · exact closes_of_form h
  · exact closes_of_form h
  · cases h

theorem closes_of_headed {t : Token} {ts : List Token} {x : Expr × NoLonger (t :: ts)}
    (h : headed t ts = .ok x) : Closes x.2.val := by
  rw [headed] at h
  cases ht : t.kind with
  | arith | identifier =>
      simp only [ht] at h
      obtain ⟨y, hy, h⟩ := bind_eq_ok h
      cases h
      exact closes_of_form (x := y) hy
  | keyword =>
      simp only [ht] at h
      obtain ⟨y, hy, h⟩ := bind_eq_ok h
      cases h
      exact closes_of_keyword (x := y) hy
  | rparen =>
      simp only [ht] at h
      cases h
      exact ⟨t, ts, rfl, ht⟩
  | _ =>
      simp only [ht] at h
      cases h

/-- What stands between two parentheses is read up to the second one, which is therefore never
missing when the expression is to be finished. -/
theorem finish_of_headed {t : Token} {ts : List Token} {x : Expr × NoLonger (t :: ts)}
    (h : headed t ts = .ok x) : ∃ left, expect .rparen .finish x.2.val = .ok left := by
  obtain ⟨u, rest, hleft, hu⟩ := closes_of_headed h
  rw [hleft]
  exact ⟨_, expect_of_kind rest _ hu⟩

/-- At the closing parenthesis a reader builds the expression it is in. -/
theorem readOn_closes {ts : List Token} (hts : Closes ts) (r : Reader) (p : Pending) :
    (r.moveTo (.elements p)).readOn ts = p.build >>= fun e => closing r e ts := by
  obtain ⟨t, rest, rfl, ht⟩ := hts
  rw [Reader.readOn_cons]
  change Reader.takeElement _ p t >>= _ = _
  unfold Reader.takeElement
  rw [ht]
  cases p.build with
  | error e => rfl
  | ok e =>
      unfold closing
      rw [expect_of_kind rest _ ht]
      rfl

theorem readOn_form {ts : List Token} (hts : ElementsAgree ts) (r : Reader) (head : Head)
    (line : Nat) :
    (r.moveTo (.elements ⟨head, line, []⟩)).readOn ts =
      form head line ts >>= fun x => closing r x.1 x.2.val := by
  rw [hts, form]
  cases helements : elements ts with
  | error e => rfl
  | ok x =>
      change (r.moveTo (.elements (Pending.pushAll _ x.1))).readOn x.2.val = _
      rw [readOn_closes (closes_of_elements helements)]
      have hbuild : (Pending.pushAll ⟨head, line, []⟩ x.1).build = head.build line x.1 := by
        unfold Pending.build Pending.pushAll
        simp
      rw [hbuild]
      change _ = (head.build line x.1 >>= fun e => pure (e, x.2)) >>= _
      cases head.build line x.1 <;> rfl

theorem readOn_params (r : Reader) (line : Nat) (ts : List Token) :
    (r.moveTo (.paramsStart line)).readOn ts =
      params ts >>= fun x =>
        (r.moveTo (.elements ⟨.lambda x.1, line, []⟩)).readOn x.2.val := by
  unfold params
  cases ts with
  | nil => rfl
  | cons t ts =>
      rw [Reader.readOn_cons]
      change Reader.expectParen _ (.params line []) .paramsStart t >>= _ = _
      unfold Reader.expectParen
      by_cases ht : t.kind = .lparen
      · rw [if_pos ht, expect_of_kind ts _ ht]
        change (r.moveTo (.params line [])).readOn ts = (names ts >>= _) >>= _
        rw [readOn_names]
        cases names ts <;> rfl
      · rw [if_neg ht, expect_of_ne ts _ ht]
        rfl

theorem readOn_bang (r : Reader) (line : Nat) (ts : List Token) :
    (r.moveTo (.bang line)).readOn ts =
      (r.moveTo (.elements ⟨.set, line, []⟩)).readOn (eat .not ts).val := by
  cases ts with
  | nil => rfl
  | cons t ts =>
      rw [Reader.readOn_cons]
      change (if t.kind = .not then _ else _) >>= _ = _
      by_cases ht : t.kind = .not
      · rw [if_pos ht, eat_of_kind ts ht]
        rfl
      · rw [if_neg ht, eat_of_ne ts ht, Reader.readOn_cons]
        rfl

section Shorter

variable {ts : List Token} (hts : ∀ us : List Token, us.length ≤ ts.length → ElementsAgree us)
  (r : Reader)
include hts

theorem readOn_keyword (t : Token) :
    (r.keyword t >>= fun r => r.readOn ts) =
      keyword t ts >>= fun x => closing r x.1 x.2.val := by
  have hform := readOn_form (hts ts (Nat.le_refl _)) r
  rw [keyword]
  unfold Reader.keyword
  generalize t.name = word
  split
  · exact hform .cond t.line
  · change _ = binding .define t.line ts >>= _
    rw [binding_eq_form]
    exact hform .define t.line
  · change (r.moveTo (.bang t.line)).readOn ts =
      (binding .set t.line (eat .not ts).val >>= _) >>= _
    rw [readOn_bang, readOn_form (hts _ (eat .not ts).property), binding_eq_form]
    cases form .set t.line (eat .not ts).val <;> rfl
  · change (r.moveTo (.paramsStart t.line)).readOn ts = (params ts >>= _) >>= _
    rw [readOn_params]
    cases params ts with
    | error e => rfl
    | ok x =>
        change _ = (form (.lambda x.1) t.line x.2.val >>= _) >>= _
        refine (readOn_form (hts _ x.2.property) r (.lambda x.1) t.line).trans ?_
        cases form (.lambda x.1) t.line x.2.val <;> rfl
  · exact hform .begin t.line
  · exact hform .list t.line
  · -- It is none of these words, and both sides report it.
    simp only
    rfl

theorem readOn_headed (t : Token) :
    (r.takeHead t >>= fun r => r.readOn ts) =
      headed t ts >>= fun x => closing r x.1 x.2.val := by
  have hform := readOn_form (hts ts (Nat.le_refl _)) r
  rw [headed]
  unfold Reader.takeHead
  cases ht : t.kind with
  | arith =>
      change (r.moveTo (.elements ⟨.arith t.operator, t.line, []⟩)).readOn ts = _
      rw [hform]
      cases form (.arith t.operator) t.line ts <;> rfl
  | keyword =>
      change (r.keyword t >>= fun r => r.readOn ts) = _
      rw [readOn_keyword hts]
      cases keyword t ts <;> rfl
  | identifier =>
      change (r.moveTo (.elements ⟨.call t.name, t.line, []⟩)).readOn ts = _
      rw [hform]
      cases form (.call t.name) t.line ts <;> rfl
  | rparen =>
      change (r.close .empty).readOn ts = closing r .empty (t :: ts)
      unfold closing
      rw [expect_of_kind ts _ ht]
      rfl
  | _ => rfl

end Shorter

/-- Behind an opening parenthesis a reader goes on with the expression that the descent
finds. -/
theorem readOn_expr {t : Token} (ht : t.kind = .lparen) {ts : List Token}
    (hts : ∀ us : List Token, us.length < ts.length → ElementsAgree us) {r : Reader}
    (hr : r.place = .head) :
    r.readOn ts = expr (t :: ts) >>= fun x => (r.close x.1).readOn x.2.val := by
  rw [expr, expect_of_kind ts _ ht]
  cases ts with
  | nil =>
      rw [Reader.readOn_nil, Reader.finish, hr]
      rfl
  | cons u ts =>
      have hshorter : ∀ us : List Token, us.length ≤ ts.length → ElementsAgree us :=
        fun us hus => hts us (Nat.lt_succ_of_le hus)
      rw [Reader.readOn_cons, Reader.step, hr]
      change (r.takeHead u >>= fun r => r.readOn ts) = (headed u ts >>= _) >>= _
      rw [readOn_headed hshorter]
      cases headed u ts with
      | error e => rfl
      | ok x =>
          change (expect .rparen .finish x.2.val >>= _) =
            (expect .rparen .finish x.2.val >>= _) >>= _
          cases expect .rparen .finish x.2.val <;> rfl

/-! ## Elements -/

theorem readOn_skip (r : Reader) (p : Pending) (ts : List Token) :
    (r.moveTo (.elements p)).readOn ts = (r.moveTo (.elements p)).readOn (skip .quote ts).val := by
  induction ts with
  | nil => rfl
  | cons t ts ih =>
      by_cases ht : t.kind = .quote
      · have hskip : (skip .quote (t :: ts)).val = (skip .quote ts).val := by
          simp [skip, ht]
        rw [hskip, ← ih, Reader.readOn_cons]
        change Reader.takeElement _ p t >>= _ = _
        unfold Reader.takeElement
        rw [ht]
        rfl
      · have hskip : (skip .quote (t :: ts)).val = t :: ts := by
          simp [skip, ht]
        rw [hskip]

theorem kind_ne_of_skip {kind : TokenKind} {ts us : List Token} {t : Token}
    (h : (skip kind ts).val = t :: us) : t.kind ≠ kind := by
  have hhead := List.head?_dropWhile_not (fun t : Token => decide (t.kind = kind)) ts
  change ts.dropWhile _ = _ at h
  rw [h] at hhead
  simpa using hhead

section Among

variable {ts : List Token} (hts : ∀ us : List Token, us.length < ts.length → ElementsAgree us)
  (r : Reader) (p : Pending)
include hts

theorem readOn_among (x : Element) (left : Shorter ts) :
    (r.moveTo (.elements (p.push x))).readOn left.val =
      among (.element x left) >>= fun y =>
        (r.moveTo (.elements (p.pushAll y.1))).readOn y.2.val := by
  rw [hts left.val left.property, among]
  cases elements left.val with
  | error e => rfl
  | ok y =>
      change (r.moveTo (.elements ((p.push x).pushAll y.1))).readOn y.2.val =
        (r.moveTo (.elements (p.pushAll (x :: y.1)))).readOn y.2.val
      rw [Pending.pushAll_cons]

/-- What a reader does with the next token is what the descent does with the next element. -/
theorem elementsAgree_step : ElementsAgree ts := by
  intro r p
  have hquote : ∀ t us, (skip .quote ts).val = t :: us → t.kind ≠ .quote :=
    fun _ _ => kind_ne_of_skip
  rw [readOn_skip, elements_eq, element]
  generalize skip .quote ts = skipped at hquote
  obtain ⟨us, hus⟩ := skipped
  cases us with
  | nil => rfl
  | cons t us =>
      have hmore := readOn_among hts r p
      have htake : (r.moveTo (.elements p)).readOn (t :: us) =
          (r.moveTo (.elements p)).takeElement p t >>= fun r => r.readOn us :=
        Reader.readOn_cons _ t us
      unfold Reader.takeElement at htake
      dsimp only
      cases ht : t.kind with
      | int | num | float | str =>
          rw [htake, ht]
          exact hmore (.literal t.value) ⟨us, hus⟩
      | identifier =>
          rw [htake, ht]
          exact hmore (.name t.value) ⟨us, hus⟩
      | lparen =>
          have hinner : ∀ vs : List Token, vs.length < us.length → ElementsAgree vs :=
            fun vs hvs => hts vs (Nat.lt_trans hvs hus)
          rw [htake, ht]
          change Reader.readOn { r with outer := p :: r.outer, place := .head } us = _
          rw [readOn_expr ht hinner rfl]
          cases expr (t :: us) with
          | error e => rfl
          | ok x => exact hmore (.expr x.1) ⟨x.2.val, Nat.lt_of_lt_of_le x.2.property hus⟩
      | rparen => rfl
      | quote => exact absurd ht (hquote t us rfl)
      | _ =>
          rw [htake, ht]
          rfl

end Among

theorem elementsAgree (ts : List Token) : ElementsAgree ts :=
  elementsAgree_step fun us _ => elementsAgree us
termination_by ts.length

end Descent

/-! ## Units -/

theorem readOn_descend (done : List Expr) (ts : List Token) :
    Reader.readOn ⟨done, [], .between⟩ ts = (done.reverse ++ ·) <$> descend ts := by
  cases ts with
  | nil =>
      rw [descend]
      exact congrArg Except.ok (List.append_nil _).symm
  | cons t ts =>
      rw [descend, Reader.readOn_cons]
      change Reader.expectParen _ .head .start t >>= _ = _
      unfold Reader.expectParen
      by_cases ht : t.kind = .lparen
      · rw [if_pos ht]
        change Reader.readOn ⟨done, [], .head⟩ ts = _
        rw [Descent.readOn_expr ht (fun us _ => Descent.elementsAgree us) rfl]
        cases Descent.expr (t :: ts) with
        | error e => rfl
        | ok x =>
            change Reader.readOn ⟨x.1 :: done, [], .between⟩ x.2.val =
              (done.reverse ++ ·) <$> (descend x.2.val >>= fun es => pure (x.1 :: es))
            rw [readOn_descend (x.1 :: done) x.2.val]
            cases descend x.2.val with
            | error e => rfl
            | ok es => simp
      · rw [if_neg ht, Descent.expr, Descent.expect_of_ne ts _ ht]
        rfl
termination_by ts.length
decreasing_by exact x.2.property

/-- Tokens are read by descent as they are read one after the other: the same expressions,
or the same error. -/
theorem descend_eq_parse (ts : List Token) : descend ts = parse ts := by
  have hread : parse ts = (([] : List Expr).reverse ++ ·) <$> descend ts := readOn_descend [] ts
  rw [hread]
  cases descend ts <;> rfl

/-- The descent reads exactly the spellings of expressions. -/
theorem descend_eq_ok_iff_renders {ts : List Token} {es : List Expr} :
    descend ts = .ok es ↔ Expr.RendersUnit es ts := by
  rw [descend_eq_parse, parse_eq_ok_iff_renders]

end MiniLisp
