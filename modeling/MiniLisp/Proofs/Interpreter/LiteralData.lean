import MiniLisp.Proofs.Interpreter.Splitting
import MiniLisp.Proofs.Scope.Depth
import MiniLisp.Proofs.Token.Literals

/-!
# Literal data

Integers, strings and lists can be written down as source text, each list as an
expression that builds it.  To load such a text gives the data back.  Every layer has its
part in this: the tokens of the text spell the expression, the expression is compiled to
forms that build the lists from the inside out, and these forms look at no name.
-/

namespace MiniLisp

namespace Value

mutual

/-- The source text of data.  What is not a list is written as it is displayed. -/
def source : Value → String
  | .list items => "(list" ++ sources items ++ ")"
  | v => v.display

def sources : List Value → String
  | [] => ""
  | v :: vs => " " ++ v.source ++ sources vs

end

mutual

/-- The element that the source text of data is read as. -/
def element : Value → Element
  | .list items => .expr (.list (elements items))
  | v => .literal v

def elements : List Value → List Element
  | [] => []
  | v :: vs => v.element :: elements vs

end

mutual

/-- How deep lists are nested in a value. -/
def depth : Value → Nat
  | .list items => depths items + 1
  | _ => 0

def depths : List Value → Nat
  | [] => 0
  | v :: vs => max v.depth (depths vs)

end
end Value

/-! ## From text to expressions -/

namespace Element.RendersAll

theorem quotes {xs : List Element} {ts quotes : List Token} (hxs : Element.RendersAll xs ts)
    (hquotes : Token.AllOf .quote quotes) : Element.RendersAll xs (ts ++ quotes) := by
  induction quotes generalizing ts with
  | nil => rwa [List.append_nil]
  | cons t quotes ih =>
      have h := ih (hxs.quote hquotes.head) hquotes.tail
      rwa [List.append_assoc] at h

theorem append {xs ys : List Element} {ts us : List Token} (hxs : Element.RendersAll xs ts)
    (hys : Element.RendersAll ys us) : Element.RendersAll (xs ++ ys) (ts ++ us) := by
  induction ys generalizing xs ts us with
  | nil =>
      cases hys with
      | nil hquotes =>
          rw [List.append_nil]
          exact hxs.quotes hquotes
  | cons y ys ih =>
      cases hys with
      | cons hquotes hy hrest =>
          have h := ih ((hxs.quotes hquotes).snoc hy) hrest
          simpa using h

theorem single {x : Element} {ts : List Token} (hx : Element.Renders x ts) :
    Element.RendersAll [x] ts :=
  nil_nil.snoc hx

end Element.RendersAll

/-- The text starts with the spelling of elements, without anything that is left out, and
then goes on as the rest would by itself. -/
def Element.ReadFrom (keywords : Keywords) (xs : List Element) (text rest : List Char) : Prop :=
  ∀ line, ∃ ts line', Lexed.ofText keywords line (text ++ rest) =
    ⟨ts, []⟩ ++ Lexed.ofText keywords line' rest ∧ Element.RendersAll xs ts

theorem Lexeme.Boundary.sources (vs : List Value) {rest : List Char} (hrest : Boundary rest) :
    Boundary ((Value.sources vs).toList ++ rest) := by
  cases vs with
  | nil => exact hrest
  | cons v vs =>
      have htext : (Value.sources (v :: vs)).toList =
          ' ' :: (v.source ++ Value.sources vs).toList := by
        simp [Value.sources]
      rw [htext]
      exact .space _

section Reading

variable {keywords : Keywords}

theorem readFrom_int {n : Int64} (hn : 0 ≤ n.toInt) {rest : List Char}
    (hrest : Lexeme.Boundary rest) :
    Element.ReadFrom keywords [.literal (.int n)] (Value.int n).display.toList rest := by
  intro line
  have hread := Lexed.ofText_int keywords line hn hrest.numeric hrest.alpha
  let t : Token := ⟨.int, .int n, line⟩
  have hrenders : Element.Renders (.literal t.value) [t] := .literal rfl
  exact ⟨[t], line, hread, .single hrenders⟩

theorem readFrom_string {s : String} (hs : '"' ∉ s.toList ∨ '\'' ∉ s.toList)
    (rest : List Char) :
    Element.ReadFrom keywords [.literal (.str s)] (Value.str s).display.toList rest := by
  intro line
  obtain ⟨quote, hquote, hbody, htext⟩ := exists_toList_quoted hs
  have hread := Lexed.ofText_string keywords line hquote hbody rest
  let before : Token := ⟨.quote, .str quote.toString, line⟩
  let t : Token := ⟨.str, .str s, line⟩
  let after : Token := ⟨.quote, .str quote.toString, line + s.toList.count '\n'⟩
  have hrenders : Element.Renders (.literal t.value) [t] := .literal rfl
  have hquoted : Element.RendersAll [.literal (.str s)] ([before] ++ [t] ++ [after]) :=
    ((Element.RendersAll.nil_nil.quote rfl).snoc hrenders).quote rfl
  rw [String.ofList_toList] at hread
  refine ⟨[before, t, after], line + s.toList.count '\n', ?_, hquoted⟩
  change Lexed.ofText keywords line ((quoted s).toList ++ rest) = _
  rw [htext, List.cons_append, List.append_assoc]
  exact hread

/-- A list is read as the expression that builds it, once its elements are read. -/
theorem readFrom_list (hlist : keywords.contains "list" = true) {items : List Value}
    {rest : List Char}
    (hitems : Element.ReadFrom keywords (Value.elements items) (Value.sources items).toList
      (')' :: rest)) :
    ∀ line, ∃ ts line', Lexed.ofText keywords line ((Value.list items).source.toList ++ rest) =
      ⟨ts, []⟩ ++ Lexed.ofText keywords line' rest ∧
        Expr.Renders (.list (Value.elements items)) ts := by
  intro line
  obtain ⟨ts, line', hread, hrenders⟩ := hitems line
  let l : Token := ⟨.lparen, .str "(", line⟩
  let word : Token := ⟨.keyword, .str "list", line⟩
  let r : Token := ⟨.rparen, .str ")", line'⟩
  refine ⟨[l, word] ++ ts ++ [r], line', ?_, .list rfl ⟨rfl, rfl⟩ hrenders rfl⟩
  have htext : (Value.list items).source.toList ++ rest =
      '(' :: 'l' :: (['i', 's', 't'] ++ ((Value.sources items).toList ++ ')' :: rest)) := by
    simp [Value.source]
  have hends := (Lexeme.Boundary.sources items (.paren rest)).word
  have hletters : ∀ c ∈ ['i', 's', 't'], Lexeme.isWordChar c = true :=
    List.all_eq_true.mp (by decide)
  have hword : Lexed.ofText keywords line ('l' :: (['i', 's', 't'] ++ _)) =
      ⟨[word], []⟩ ++ _ :=
    Lexed.ofText_keyword keywords line (by decide) hletters hends hlist
  rw [htext, Lexed.ofText_symbol keywords line rfl, hword, hread,
    Lexed.ofText_symbol keywords line' rfl]
  exact Lexed.ext (by simp [l, word, r]) (by simp)

end Reading

mutual

theorem readFrom_source {keywords : Keywords} (hlist : keywords.contains "list" = true)
    (v : Value) (hv : v.isWritable = true) {rest : List Char} (hrest : Lexeme.Boundary rest) :
    Element.ReadFrom keywords [v.element] v.source.toList rest := by
  cases v with
  | int n => exact readFrom_int (by simpa [Value.isWritable] using hv) hrest
  | str s => exact readFrom_string (by simpa [Value.isWritable] using hv) rest
  | list items =>
      intro line
      obtain ⟨ts, line', hread, hrenders⟩ :=
        readFrom_list hlist (readFrom_sources hlist items hv (.paren rest)) line
      exact ⟨ts, line', hread, .single (.expr hrenders)⟩
  | float | bool | null | function => cases hv

theorem readFrom_sources {keywords : Keywords} (hlist : keywords.contains "list" = true)
    (vs : List Value) (hvs : Value.allWritable vs = true) {rest : List Char}
    (hrest : Lexeme.Boundary rest) :
    Element.ReadFrom keywords (Value.elements vs) (Value.sources vs).toList rest := by
  intro line
  cases vs with
  | nil => exact ⟨[], line, rfl, .nil_nil⟩
  | cons v vs =>
      obtain ⟨hv, hvs⟩ := Bool.and_eq_true_iff.mp hvs
      obtain ⟨ts, line', hread, hrenders⟩ := readFrom_source hlist v hv (.sources vs hrest) line
      obtain ⟨ts', line'', hread', hrenders'⟩ := readFrom_sources hlist vs hvs hrest line'
      refine ⟨ts ++ ts', line'', ?_, hrenders.append hrenders'⟩
      have htext : (Value.sources (v :: vs)).toList ++ rest =
          ' ' :: (v.source.toList ++ ((Value.sources vs).toList ++ rest)) := by
        simp [Value.sources]
      rw [htext, Lexed.ofText_cons_of_isBlank keywords line _ rfl, Lexed.ofText_dropWhile_isBlank,
        hread, hread']
      exact Lexed.ext (by simp) (by simp)

end

theorem lex_source {keywords : Keywords} (hlist : keywords.contains "list" = true)
    {items : List Value} (hitems : Value.allWritable items = true) :
    (lex keywords (Value.list items).source).diagnostics = [] ∧
      parse (lex keywords (Value.list items).source).tokens =
        .ok [.list (Value.elements items)] := by
  obtain ⟨ts, line', hread, hrenders⟩ :=
    readFrom_list hlist (readFrom_sources hlist items hitems (.paren [])) 1
  rw [List.append_nil, Lexed.ofText_nil] at hread
  have hlex : lex keywords (Value.list items).source = ⟨ts, []⟩ :=
    hread.trans (Lexed.ext (List.append_nil ts) rfl)
  rw [hlex]
  refine ⟨rfl, parse_eq_ok_iff_renders.mpr ⟨[ts], .cons hrenders .nil, ?_⟩⟩
  simp

/-! ## From expressions to values -/

mutual

/-- What the source text of data is compiled to gives the data, and does nothing else. -/
theorem force_element (v : Value) (hv : v.isWritable = true) {w : Value}
    (hw : Element.CompilesTo v.element w) {fuel : Nat} (hfuel : v.depth ≤ fuel) (run : Run) :
    Eval.force (call fuel) w run = .ok v run := by
  cases v with
  | int n | str s =>
      cases hw
      rfl
  | list items =>
      cases hw with
      | expr hf =>
          cases hf with
          | list id hvs =>
              cases fuel with
              | zero => cases hfuel
              | succ fuel =>
                  have hforced :=
                    forceAll_elements items hv hvs (Nat.le_of_succ_le_succ hfuel) run
                  change EStateM.bind (Eval.forceAll (call fuel) _) _ run = _
                  unfold EStateM.bind
                  rw [hforced]
                  rfl
  | float | bool | null | function => cases hv

theorem forceAll_elements (vs : List Value) (hvs : Value.allWritable vs = true)
    {ws : List Value} (hws : Element.CompileAllTo (Value.elements vs) ws) {fuel : Nat}
    (hfuel : Value.depths vs ≤ fuel) (run : Run) :
    Eval.forceAll (call fuel) ws run = .ok vs run := by
  cases vs with
  | nil =>
      cases hws
      rfl
  | cons v vs =>
      obtain ⟨hv, hvs⟩ := Bool.and_eq_true_iff.mp hvs
      obtain ⟨hdepth, hdepths⟩ := Nat.max_le.mp hfuel
      cases hws with
      | cons hw hrest =>
          have hfirst := force_element v hv hw hdepth run
          have hforced := forceAll_elements vs hvs hrest hdepths run
          change EStateM.bind (Eval.force (call fuel) _) _ run = _
          unfold EStateM.bind
          rw [hfirst]
          change EStateM.bind (Eval.forceAll (call fuel) _) _ run = _
          unfold EStateM.bind
          rw [hforced]
          rfl

end

namespace Interpreter

/-! ## Loading -/

theorem contains_keywords_performAll {i : Interpreter} {word : String}
    (h : i.keywords.contains word = true) (fuel : Nat) (ops : List Operation) :
    (i.performAll fuel ops).keywords.contains word = true := by
  induction ops generalizing i with
  | nil => exact h
  | cons op ops ih =>
      apply ih
      rw [(stepped_perform fuel i op).keywords]
      cases op with
      | load | loadFile => exact h
      | addKeyword other =>
          simp only [Operation.keywords, Keywords.insert]
          split
          · exact h
          · simp only [Keywords.contains, List.contains_iff_mem] at h ⊢
            exact List.mem_append_left _ h

/-- Whatever was loaded before, a list of data is what its source text evaluates to, given
fuel for as many nested calls as there are nested lists.  Nothing is left out of the text,
nothing is printed, and all scopes stay as they are. -/
theorem literal_data_survives (fuel₀ : Nat) (ops : List Operation) (name : String)
    (items : List Value) (hitems : (Value.list items).isWritable = true) (fuel : Nat)
    (hfuel : (Value.list items).depth ≤ fuel) :
    let i := (new .standard).performAll fuel₀ ops
    let loaded := i.load fuel name (Value.list items).source
    loaded.1 = .ok ⟨.list items, []⟩ ∧ loaded.2.forest = i.forest ∧
      loaded.2.console.output = i.console.output := by
  intro i loaded
  have hlist : i.keywords.contains "list" = true :=
    contains_keywords_performAll (by decide) fuel₀ ops
  have hi : i.Housed := (Housed.new .standard).performAll fuel₀ ops
  obtain ⟨hdiagnostics, hparse⟩ := lex_source hlist hitems
  have hends := i.load_ends fuel name hparse
  have hrun : Program.run fuel (compileAll [.list (Value.elements items)] i.fresh).1 i.start =
      .ok (.list items) (i.start.told (.evaluating 0)) := by
    have hcompiled : Element.CompilesTo (Value.list items).element
        (.function ((Expr.list (Value.elements items)).compile i.fresh).1) :=
      .expr (Expr.compilesTo_compile _ _)
    have hforce := force_element (.list items) hitems hcompiled hfuel
      (i.start.told (.evaluating 0))
    change call fuel _ [] _ = _ at hforce
    change Program.runFrom fuel 0 .null [((Expr.list (Value.elements items)).compile i.fresh).1]
      i.start = _
    rw [Program.runFrom_cons_apply, hforce]
    rfl
  rw [hrun, hdiagnostics] at hends
  refine ⟨hends.1, ?_, hends.2.output⟩
  rw [hends.2.forest]
  exact hi.1.wellFormed.restore_chain hi.2

/-- The greatest integer, a string with a parenthesis, a line end and a quote, and lists
inside a list.  A name that was defined before is not in the way. -/
theorem literal_data_survives_nested :
    let before := [Operation.load "first" "(define a (lambda () 'b'))"]
    let items : List Value :=
      [.int 9223372036854775807, .str "a)\n'é", .list [.str "\"", .list []]]
    let i := (new .standard).performAll 9 before
    let source := "(list 9223372036854775807 \"a)\n'é\" (list '\"' (list)))"
    (Value.list items).isWritable = true ∧ (Value.list items).depth = 3 ∧
      (Value.list items).source = source ∧
      (i.load 3 "second" source).1 = .ok ⟨.list items, []⟩ ∧
      (i.load 3 "second" source).2.forest = i.forest ∧
      (i.load 3 "second" source).2.console.output = i.console.output := by
  intro before items i source
  have hitems : (Value.list items).isWritable = true := by decide +kernel
  have hdepth : (Value.list items).depth = 3 := by decide +kernel
  have hsource : (Value.list items).source = source := by decide +kernel
  have hload := literal_data_survives 9 before "second" items hitems 3 (Nat.le_of_eq hdepth)
  rw [hsource] at hload
  exact ⟨hitems, hdepth, hsource, hload⟩

end Interpreter
end MiniLisp
