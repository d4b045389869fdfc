import MiniLisp.Proofs.Expr.Grammar

/-!
# Reading accepts the grammar

Reading a sequence of tokens gives the expressions `es` if and only if the tokens
spell `es`.  In one direction a spelling drives the reader, by induction on the
spelling.  In the other direction every reader knows how the tokens it has taken
fall into complete expressions, open ones, and the place it has come to; this is
the invariant `Reader.Consumed`, which every step keeps.
-/

namespace MiniLisp

/-- The open expression whose elements come next. -/
def Place.pending? : Place → Option Pending
  | .bang line => some ⟨.set, line, []⟩
  | .elements p => some p
  | _ => none

namespace Reader

def Reads (r : Reader) (ts : List Token) (r' : Reader) : Prop :=
  ts.foldlM step r = .ok r'

theorem Reads.nil (r : Reader) : Reads r [] r :=
  rfl

theorem Reads.cons {r r' r'' : Reader} {t : Token} {ts : List Token}
    (hstep : r.step t = .ok r') (hrest : Reads r' ts r'') : Reads r (t :: ts) r'' := by
  unfold Reads
  rw [List.foldlM_cons, hstep]
  exact hrest

theorem Reads.single {r r' : Reader} {t : Token} (hstep : r.step t = .ok r') :
    Reads r [t] r' :=
  .cons hstep (.nil r')

theorem Reads.append {r r' r'' : Reader} {ts us : List Token}
    (hfirst : Reads r ts r') (hrest : Reads r' us r'') : Reads r (ts ++ us) r'' := by
  unfold Reads at *
  rw [List.foldlM_append, hfirst]
  exact hrest

theorem Reads.cons_inv {r r'' : Reader} {t : Token} {ts : List Token}
    (hreads : Reads r (t :: ts) r'') : ∃ r', r.step t = .ok r' ∧ Reads r' ts r'' := by
  unfold Reads at hreads
  rw [List.foldlM_cons] at hreads
  cases hstep : r.step t with
  | error e =>
      rw [hstep] at hreads
      cases hreads
  | ok r' =>
      rw [hstep] at hreads
      exact ⟨r', rfl, hreads⟩

/-! ## From a spelling to a run -/

theorem step_pending {r : Reader} {p : Pending} {t : Token}
    (hp : r.place.pending? = some p) (ht : t.kind ≠ .not) :
    r.step t = r.takeElement p t := by
  obtain ⟨done, outer, place⟩ := r
  cases place with
  | between | head | paramsStart | params => cases hp
  | bang line =>
      cases hp
      exact if_neg ht
  | elements p =>
      cases hp
      rfl

theorem reads_quotes {quotes : List Token} (hquotes : Token.AllOf .quote quotes) :
    ∀ {r : Reader} {p : Pending}, r.place.pending? = some p →
      ∃ place, Reads r quotes (r.moveTo place) ∧ place.pending? = some p := by
  induction quotes with
  | nil =>
      intro r p hp
      exact ⟨r.place, .nil r, hp⟩
  | cons t ts ih =>
      intro r p hp
      have ht : t.kind = .quote := hquotes.head
      have hstep : r.step t = .ok (r.moveTo (.elements p)) := by
        rw [step_pending hp (by simp [ht])]
        simp only [takeElement, ht]
      obtain ⟨place, hreads, hplace⟩ :=
        ih hquotes.tail (r := r.moveTo (.elements p)) (p := p) rfl
      exact ⟨place, .cons hstep hreads, hplace⟩

theorem reads_params {params : List Token} (hparams : Token.AllOf .identifier params)
    (line : Nat) : ∀ (r : Reader) (names : List String), r.place = .params line names →
      Reads r params (r.moveTo (.params line ((params.map Token.name).reverse ++ names))) := by
  induction params with
  | nil =>
      intro r names hplace
      obtain ⟨done, outer, place⟩ := r
      cases hplace
      exact .nil _
  | cons t ts ih =>
      intro r names hplace
      have ht : t.kind = .identifier := hparams.head
      have hstep : r.step t = .ok (r.moveTo (.params line (t.name :: names))) := by
        simp only [step, hplace, takeParam, ht]
      have hreads :=
        ih hparams.tail (r.moveTo (.params line (t.name :: names))) (t.name :: names) rfl
      have hnames : ((t :: ts).map Token.name).reverse ++ names =
          (ts.map Token.name).reverse ++ t.name :: names := by
        simp
      rw [hnames]
      exact .cons hstep hreads

/-- Reading a complete expression from behind its opening parenthesis. -/
def ReadsExpr (e : Expr) (ts : List Token) : Prop :=
  ∃ l rest, ts = l :: rest ∧ l.kind = .lparen ∧
    ∀ r : Reader, r.place = .head → Reads r rest (r.close e)

def ReadsElement (x : Element) (ts : List Token) : Prop :=
  ∀ (r : Reader) (p : Pending), r.place.pending? = some p →
    Reads r ts (r.moveTo (.elements (p.push x)))

def ReadsElements (xs : List Element) (ts : List Token) : Prop :=
  ∀ (r : Reader) (p : Pending), r.place.pending? = some p →
    ∃ place, Reads r ts (r.moveTo place) ∧
      place.pending? = some { p with elements := xs.reverse ++ p.elements }

theorem step_keyword {r : Reader} {t : Token} {word : String} (hplace : r.place = .head)
    (ht : t.IsWord word) : r.step t = r.keyword t := by
  simp only [step, hplace, takeHead, ht.1]

theorem reads_opening {head : Head} {line : Nat} {opening : List Token}
    (hopens : head.Opens line opening) :
    ∃ l rest, opening = l :: rest ∧ l.kind = .lparen ∧
      ∀ r : Reader, r.place = .head → ∃ place,
        Reads r rest (r.moveTo place) ∧ place.pending? = some ⟨head, line, []⟩ := by
  cases hopens with
  | arith hl hop =>
      refine ⟨_, _, rfl, hl, fun r hr => ⟨.elements _, .single ?_, rfl⟩⟩
      simp only [step, hr, takeHead, hop]
  | call hl hcallee =>
      refine ⟨_, _, rfl, hl, fun r hr => ⟨.elements _, .single ?_, rfl⟩⟩
      simp only [step, hr, takeHead, hcallee]
  | cond hl hword | define hl hword | begin hl hword | list hl hword =>
      refine ⟨_, _, rfl, hl, fun r hr => ⟨.elements _, .single ?_, rfl⟩⟩
      rw [step_keyword hr hword]
      simp only [keyword, hword.2]
  | @set l word bang hl hword hbang hlength =>
      refine ⟨_, _, rfl, hl, fun r hr => ?_⟩
      have hstep : r.step word = .ok (r.moveTo (.bang word.line)) := by
        rw [step_keyword hr hword]
        simp only [keyword, hword.2]
      cases bang with
      | nil => exact ⟨_, .single hstep, rfl⟩
      | cons t more =>
          obtain rfl : more = [] :=
            List.eq_nil_of_length_eq_zero (Nat.le_zero.mp (Nat.le_of_succ_le_succ hlength))
          have ht : t.kind = .not := hbang.head
          refine ⟨.elements _, .cons hstep (.single ?_), rfl⟩
          simp only [step, moveTo, ht, if_true]
  | @lambda l word l' r' params hl hword hl' hparams hr' =>
      refine ⟨_, _, rfl, hl, fun r hr => ?_⟩
      have hstep : r.step word = .ok (r.moveTo (.paramsStart word.line)) := by
        rw [step_keyword hr hword]
        simp only [keyword, hword.2]
      have hopen : (r.moveTo (.paramsStart word.line)).step l' =
          .ok (r.moveTo (.params word.line [])) := by
        simp only [step, moveTo, expectParen, hl', if_true]
      have hnames := reads_params hparams word.line (r.moveTo (.params word.line [])) [] rfl
      refine ⟨.elements ⟨.lambda (params.map Token.name), word.line, []⟩,
        .cons hstep (.cons hopen (.append hnames (.single ?_))), rfl⟩
      simp only [step, moveTo, takeParam, hr', List.append_nil, List.reverse_reverse]

theorem reads_form {head : Head} {line : Nat} {opening ts : List Token} {xs : List Element}
    {e : Expr} {last : Token} (hopens : head.Opens line opening) (hxs : ReadsElements xs ts)
    (hbuild : head.build line xs = .ok e) (hlast : last.kind = .rparen) :
    ReadsExpr e (opening ++ ts ++ [last]) := by
  obtain ⟨l, rest, rfl, hl, hread⟩ := reads_opening hopens
  refine ⟨l, rest ++ ts ++ [last], rfl, hl, ?_⟩
  intro r hr
  obtain ⟨first, hreads, hfirst⟩ := hread r hr
  obtain ⟨place, hreads', hplace⟩ := hxs (r.moveTo first) _ hfirst
  refine .append (.append hreads hreads') (.single ?_)
  rw [step_pending (r := (r.moveTo first).moveTo place) hplace (by simp [hlast])]
  simp only [takeElement, hlast, Pending.build, List.append_nil, List.reverse_reverse, hbuild]
  rfl

theorem ReadsExpr.element {e : Expr} {ts : List Token} (he : ReadsExpr e ts) :
    ReadsElement (.expr e) ts := by
  intro r p hp
  obtain ⟨l, rest, rfl, hl, hread⟩ := he
  have hstep : r.step l = .ok { r with outer := p :: r.outer, place := .head } := by
    rw [step_pending hp (by simp [hl])]
    simp only [takeElement, hl]
  exact .cons hstep (hread _ rfl)

theorem readsElement_literal {t : Token} (ht : t.kind.isLiteral = true) :
    ReadsElement (.literal t.value) [t] := by
  intro r p hp
  refine .single ?_
  have hnot : t.kind ≠ .not := by
    intro hkind
    rw [hkind] at ht
    cases ht
  rw [step_pending hp hnot]
  cases hkind : t.kind <;> rw [hkind] at ht <;> simp only [takeElement, hkind] <;> cases ht

theorem readsElement_name {t : Token} (ht : t.kind = .identifier) :
    ReadsElement (.name t.value) [t] := by
  intro r p hp
  refine .single ?_
  rw [step_pending hp (by simp [ht])]
  simp only [takeElement, ht]

theorem readsElements_cons {x : Element} {xs : List Element} {quotes ts rest : List Token}
    (hquotes : Token.AllOf .quote quotes) (hx : ReadsElement x ts)
    (hxs : ReadsElements xs rest) : ReadsElements (x :: xs) (quotes ++ ts ++ rest) := by
  intro r p hp
  obtain ⟨first, hreads, hfirst⟩ := reads_quotes hquotes hp
  have hreads' := hx (r.moveTo first) p hfirst
  obtain ⟨place, hreads'', hplace⟩ :=
    hxs (r.moveTo (.elements (p.push x))) (p.push x) rfl
  refine ⟨place, .append (.append hreads hreads') hreads'', ?_⟩
  rw [hplace]
  simp [Pending.push]

mutual

theorem readsElement_of_renders {x : Element} {ts : List Token} :
    Element.Renders x ts → ReadsElement x ts
  | .literal hliteral => readsElement_literal hliteral
  | .name hname => readsElement_name hname
  | .expr he => (readsExpr_of_renders he).element

theorem readsElements_of_renders {xs : List Element} {ts : List Token} :
    Element.RendersAll xs ts → ReadsElements xs ts
  | .nil hquotes => fun _ _ hp => reads_quotes hquotes hp
  | .cons hquotes hx hxs =>
      readsElements_cons hquotes (readsElement_of_renders hx) (readsElements_of_renders hxs)

theorem readsExpr_of_renders {e : Expr} {ts : List Token} :
    Expr.Renders e ts → ReadsExpr e ts
  | .empty hl hr => by
      refine ⟨_, _, rfl, hl, fun r hplace => .single ?_⟩
      simp only [step, hplace, takeHead, hr]
  | .arith hl hop hxs harity hr => by
      refine reads_form (.arith hl hop) (readsElements_of_renders hxs) ?_ hr
      refine if_neg ?_
      rintro ⟨hstar, hfew⟩
      exact Nat.not_lt_of_le (harity hstar) hfew
  | .cond hl hword hxs hr =>
      reads_form (.cond hl hword) (readsElements_of_renders hxs) rfl hr
  | .define hl hword hxs hr =>
      reads_form (.define hl hword) (readsElements_of_renders hxs) rfl hr
  | .set hl hword hbang hlength hxs hr =>
      reads_form (.set hl hword hbang hlength) (readsElements_of_renders hxs) rfl hr
  | @Expr.Renders.lambda _ _ _ _ _ _ (x :: xs) _ hl hword hl' hparams hr' _ hxs hr =>
      reads_form (.lambda hl hword hl' hparams hr') (readsElements_of_renders hxs) rfl hr
  | @Expr.Renders.begin _ _ _ (x :: xs) _ hl hword _ hxs hr =>
      reads_form (.begin hl hword) (readsElements_of_renders hxs) rfl hr
  | .list hl hword hxs hr =>
      reads_form (.list hl hword) (readsElements_of_renders hxs) rfl hr
  | .call hl hcallee hxs hr =>
      reads_form (.call hl hcallee) (readsElements_of_renders hxs) rfl hr

end

theorem reads_unit {es : List Expr} {parts : List (List Token)}
    (hparts : List.Forall₂ Expr.Renders es parts) (done : List Expr) :
    Reads ⟨done, [], .between⟩ parts.flatten ⟨es.reverse ++ done, [], .between⟩ := by
  induction hparts generalizing done with
  | nil => exact .nil _
  | @cons e part es parts he _ ih =>
      obtain ⟨l, rest, rfl, hl, hread⟩ := readsExpr_of_renders he
      have hstep : step ⟨done, [], .between⟩ l = .ok ⟨done, [], .head⟩ := by
        simp only [step, expectParen, hl, if_true]
        rfl
      have hdone : (e :: es).reverse ++ done = es.reverse ++ e :: done := by
        simp
      rw [List.flatten_cons, hdone]
      exact .append (.cons hstep (hread ⟨done, [], .head⟩ rfl)) (ih (e :: done))

/-! ## From a run to a spelling -/

end Reader

/-- The tokens that an open expression has been read from. -/
inductive Pending.Consumed : Pending → List Token → Prop
  | intro {p : Pending} {opening ts : List Token} : p.head.Opens p.line opening →
      Element.RendersAll p.elements.reverse ts → Consumed p (opening ++ ts)

/-- The tokens of open expressions, of which the innermost stands first. -/
inductive Pending.ConsumedAll : List Pending → List Token → Prop
  | nil : ConsumedAll [] []
  | cons {p : Pending} {ps : List Pending} {ts rest : List Token} :
      p.Consumed ts → ConsumedAll ps rest → ConsumedAll (p :: ps) (rest ++ ts)

/-- The tokens since the last opening parenthesis that does not belong to an outer
expression. -/
inductive Place.Consumed : Place → List Token → Prop
  | head {l : Token} : l.kind = .lparen → Consumed .head [l]
  | bang {l word : Token} : l.kind = .lparen → word.IsWord "set" →
      Consumed (.bang word.line) [l, word]
  | paramsStart {l word : Token} : l.kind = .lparen → word.IsWord "lambda" →
      Consumed (.paramsStart word.line) [l, word]
  | params {l word l' : Token} {params : List Token} : l.kind = .lparen →
      word.IsWord "lambda" → l'.kind = .lparen → Token.AllOf .identifier params →
      Consumed (.params word.line (params.map Token.name).reverse) ([l, word, l'] ++ params)
  | elements {p : Pending} {ts : List Token} : p.Consumed ts → Consumed (.elements p) ts

/-- How the tokens taken so far fall into complete expressions, open ones and the
place of the reader. -/
inductive Reader.Consumed : Reader → List Token → Prop
  | between {done : List Expr} {ts : List Token} : Expr.RendersUnit done.reverse ts →
      Consumed ⟨done, [], .between⟩ ts
  | inside {done : List Expr} {outer : List Pending} {place : Place}
      {unit opened ts : List Token} : Expr.RendersUnit done.reverse unit →
      Pending.ConsumedAll outer opened → place.Consumed ts →
      Consumed ⟨done, outer, place⟩ (unit ++ opened ++ ts)

namespace Pending.Consumed

theorem start {head : Head} {line : Nat} {opening : List Token}
    (hopens : head.Opens line opening) : Pending.Consumed ⟨head, line, []⟩ opening := by
  have h : Pending.Consumed ⟨head, line, []⟩ (opening ++ []) :=
    .intro hopens Element.RendersAll.nil_nil
  rwa [List.append_nil] at h

theorem push {p : Pending} {ts part : List Token} {x : Element} (hp : p.Consumed ts)
    (hx : Element.Renders x part) : (p.push x).Consumed (ts ++ part) := by
  cases hp with
  | intro hopens hxs =>
      rw [List.append_assoc]
      refine .intro hopens ?_
      simp only [Pending.push, List.reverse_cons]
      exact hxs.snoc hx

theorem quote {p : Pending} {ts : List Token} {t : Token} (hp : p.Consumed ts)
    (ht : t.kind = .quote) : p.Consumed (ts ++ [t]) := by
  cases hp with
  | intro hopens hxs =>
      rw [List.append_assoc]
      exact .intro hopens (hxs.quote ht)

theorem build {p : Pending} {ts : List Token} {t : Token} {e : Expr} (hp : p.Consumed ts)
    (ht : t.kind = .rparen) (hbuild : p.build = .ok e) : Expr.Renders e (ts ++ [t]) := by
  cases hp with
  | intro hopens hxs => exact Expr.Renders.of_build hopens hxs hbuild ht

end Pending.Consumed

namespace Reader

section Inside

variable {done : List Expr} {outer : List Pending} {place : Place}
  {unit opened ts : List Token} {t : Token} {r : Reader}
  (hunit : Expr.RendersUnit done.reverse unit) (houter : Pending.ConsumedAll outer opened)
include hunit houter

theorem Consumed.close {e : Expr} (he : Expr.Renders e ts) :
    Consumed (Reader.close ⟨done, outer, place⟩ e) (unit ++ opened ++ ts) := by
  cases houter with
  | nil =>
      refine .between ?_
      rw [List.append_nil, List.reverse_cons]
      exact hunit.snoc he
  | @cons p ps part rest hp hps =>
      have hplace : (Place.elements (p.push (.expr e))).Consumed (part ++ ts) :=
        .elements (hp.push (.expr he))
      rw [← List.append_assoc, List.append_assoc _ part ts]
      exact .inside hunit hps hplace

theorem Consumed.takeElement {p : Pending} (hp : p.Consumed ts)
    (hstep : Reader.takeElement ⟨done, outer, place⟩ p t = .ok r) :
    Consumed r (unit ++ opened ++ ts ++ [t]) := by
  have hpush : ∀ {x : Element}, Element.Renders x [t] →
      Consumed ⟨done, outer, .elements (p.push x)⟩ (unit ++ opened ++ ts ++ [t]) := by
    intro x hx
    rw [List.append_assoc _ ts [t]]
    exact .inside hunit houter (.elements (hp.push hx))
  unfold Reader.takeElement at hstep
  split at hstep
  next hkind =>
    cases hstep
    rw [List.append_assoc _ ts [t]]
    exact .inside hunit houter (.elements (hp.quote hkind))
  case h_2 hkind | h_3 hkind | h_4 hkind | h_5 hkind =>
    cases hstep
    exact hpush (.literal (by rw [hkind]; rfl))
  next hkind =>
    cases hstep
    exact hpush (.name hkind)
  next hkind =>
    cases hstep
    rw [List.append_assoc unit opened ts]
    exact .inside hunit (.cons hp houter) (.head hkind)
  next hkind =>
    cases hbuild : p.build with
    | error err =>
        rw [hbuild] at hstep
        cases hstep
    | ok e =>
        rw [hbuild] at hstep
        cases hstep
        rw [List.append_assoc _ ts [t]]
        exact .close hunit houter (hp.build hkind hbuild)
  next => cases hstep

theorem Consumed.keyword {l : Token} (hl : l.kind = .lparen) (ht : t.kind = .keyword)
    (hstep : Reader.keyword ⟨done, outer, place⟩ t = .ok r) :
    Consumed r (unit ++ opened ++ [l, t]) := by
  unfold Reader.keyword at hstep
  split at hstep
  next hname =>
    cases hstep
    exact .inside hunit houter (.elements (.start (.cond hl ⟨ht, hname⟩)))
  next hname =>
    cases hstep
    exact .inside hunit houter (.elements (.start (.define hl ⟨ht, hname⟩)))
  next hname =>
    cases hstep
    exact .inside hunit houter (.bang hl ⟨ht, hname⟩)
  next hname =>
    cases hstep
    exact .inside hunit houter (.paramsStart hl ⟨ht, hname⟩)
  next hname =>
    cases hstep
    exact .inside hunit houter (.elements (.start (.begin hl ⟨ht, hname⟩)))
  next hname =>
    cases hstep
    exact .inside hunit houter (.elements (.start (.list hl ⟨ht, hname⟩)))
  next => cases hstep

theorem Consumed.takeHead {l : Token} (hl : l.kind = .lparen)
    (hstep : Reader.takeHead ⟨done, outer, place⟩ t = .ok r) :
    Consumed r (unit ++ opened ++ [l, t]) := by
  unfold Reader.takeHead at hstep
  split at hstep
  next hkind =>
    cases hstep
    exact .inside hunit houter (.elements (.start (.arith hl hkind)))
  next hkind => exact .keyword hunit houter hl hkind hstep
  next hkind =>
    cases hstep
    exact .inside hunit houter (.elements (.start (.call hl hkind)))
  next hkind =>
    cases hstep
    exact .close hunit houter (.empty hl hkind)
  next => cases hstep

theorem Consumed.takeParam {params : List Token} {l word l' : Token}
    (hl : l.kind = .lparen) (hword : word.IsWord "lambda") (hl' : l'.kind = .lparen)
    (hparams : Token.AllOf .identifier params)
    (hstep : Reader.takeParam ⟨done, outer, place⟩ word.line
      (params.map Token.name).reverse t = .ok r) :
    Consumed r (unit ++ opened ++ ([l, word, l'] ++ params ++ [t])) := by
  unfold Reader.takeParam at hstep
  split at hstep
  next hkind =>
    cases hstep
    have hnames : t.name :: (params.map Token.name).reverse =
        ((params ++ [t]).map Token.name).reverse := by
      simp
    rw [hnames, List.append_assoc _ params [t]]
    exact .inside hunit houter (.params hl hword hl' (hparams.snoc hkind))
  next hkind =>
    cases hstep
    rw [List.reverse_reverse]
    exact .inside hunit houter (.elements (.start (.lambda hl hword hl' hparams hkind)))
  next => cases hstep

end Inside

theorem expectParen_ok {r r' : Reader} {place : Place} {situation : Situation} {t : Token}
    (hstep : r.expectParen place situation t = .ok r') :
    t.kind = .lparen ∧ r' = r.moveTo place := by
  unfold expectParen at hstep
  split at hstep
  next hkind =>
    cases hstep
    exact ⟨hkind, rfl⟩
  next => cases hstep

theorem Consumed.step {r r' : Reader} {ts : List Token} {t : Token} (hr : Consumed r ts)
    (hstep : r.step t = .ok r') : Consumed r' (ts ++ [t]) := by
  cases hr with
  | @between done _ hunit =>
      obtain ⟨hkind, rfl⟩ := expectParen_ok hstep
      have h : Consumed ⟨done, [], .head⟩ (ts ++ [] ++ [t]) :=
        .inside hunit .nil (.head hkind)
      rwa [List.append_nil] at h
  | @inside done outer place unit opened inner hunit houter hplace =>
      cases hplace with
      | head hl =>
          rw [List.append_assoc]
          exact .takeHead hunit houter hl hstep
      | @bang l word hl hword =>
          simp only [Reader.step] at hstep
          split at hstep
          next hkind =>
            cases hstep
            have hbang : Token.AllOf .not [t] := Token.AllOf.nil.snoc hkind
            rw [List.append_assoc]
            exact .inside hunit houter
              (.elements (.start (.set hl hword hbang (Nat.le_refl 1))))
          next =>
            have hopens : Head.Opens .set word.line ([l, word] ++ []) :=
              .set hl hword .nil (Nat.zero_le 1)
            exact .takeElement hunit houter (.start hopens) hstep
      | @paramsStart l word hl hword =>
          obtain ⟨hkind, rfl⟩ := expectParen_ok hstep
          have hparams : (Place.params word.line []).Consumed ([l, word, t] ++ []) :=
            @Place.Consumed.params l word t [] hl hword hkind .nil
          rw [List.append_assoc]
          exact .inside hunit houter hparams
      | params hl hword hl' hparams =>
          rw [List.append_assoc]
          exact .takeParam hunit houter hl hword hl' hparams hstep
      | elements hp => exact .takeElement hunit houter hp hstep

theorem Consumed.reads {r r' : Reader} {ts us : List Token} (hr : Consumed r ts)
    (hreads : Reads r us r') : Consumed r' (ts ++ us) := by
  induction us generalizing r ts with
  | nil =>
      cases hreads
      rwa [List.append_nil]
  | cons t us ih =>
      obtain ⟨next, hstep, hrest⟩ := hreads.cons_inv
      have h := ih (hr.step hstep) hrest
      rwa [List.append_assoc] at h

theorem Consumed.finish {r : Reader} {ts : List Token} {es : List Expr} (hr : Consumed r ts)
    (hfinish : r.finish = .ok es) : Expr.RendersUnit es ts := by
  cases hr with
  | between hunit =>
      cases hfinish
      exact hunit
  | inside hunit houter hplace => cases hplace <;> cases hfinish

end Reader

theorem parse_eq_ok {ts : List Token} {es : List Expr} :
    parse ts = .ok es ↔ ∃ r, Reader.Reads .initial ts r ∧ r.finish = .ok es := by
  unfold parse Reader.Reads
  cases ts.foldlM Reader.step .initial with
  | error e =>
      constructor
      · intro h
        cases h
      · rintro ⟨r, hr, _⟩
        cases hr
  | ok r =>
      constructor
      · intro h
        exact ⟨r, rfl, h⟩
      · rintro ⟨r', hr, hfinish⟩
        cases hr
        exact hfinish

theorem parse_eq_ok_iff_renders {ts : List Token} {es : List Expr} :
    parse ts = .ok es ↔ Expr.RendersUnit es ts := by
  rw [parse_eq_ok]
  constructor
  · rintro ⟨r, hreads, hfinish⟩
    have hr : Reader.Consumed .initial [] := .between Expr.RendersUnit.nil
    exact (hr.reads hreads).finish hfinish
  · rintro ⟨parts, hparts, rfl⟩
    refine ⟨_, Reader.reads_unit hparts [], ?_⟩
    simp only [Reader.finish, List.append_nil, List.reverse_reverse]

theorem Expr.RendersUnit.unique {es es' : List Expr} {ts : List Token}
    (hes : Expr.RendersUnit es ts) (hes' : Expr.RendersUnit es' ts) : es' = es := by
  have h := parse_eq_ok_iff_renders.mpr hes
  have h' := parse_eq_ok_iff_renders.mpr hes'
  rw [h] at h'
  cases h'
  rfl

end MiniLisp
