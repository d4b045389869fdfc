import MiniLisp.Proofs.Interpreter.Splitting

/-!
# Layout makes no difference

The whitespace between two parts of a text may be replaced by any other whitespace, as
long as it stands outside strings.  Tokens and diagnostics are then the same on other
lines.  Reading passes lines on to errors and looks at them nowhere else, and nothing
that is compiled has lines in it.  So both texts run the same program, or fail in the
same way.
-/

namespace MiniLisp

/-! ## Lines in errors -/

/-- The same token on no line. -/
def Token.unlined (t : Token) : Token :=
  t.relabel fun _ => 0

def ParseError.unlined (e : ParseError) : ParseError :=
  e.relabel fun _ => 0

theorem Token.unlined_shift (lines : Nat) (t : Token) : (t.shift lines).unlined = t.unlined :=
  rfl

theorem parse_relabel (g : Nat → Nat) (ts : List Token) :
    parse (ts.map (.relabel g)) = (parse ts).mapError (.relabel g) := by
  have hnil : parse [] = .ok [] := rfl
  have hparse := parse_append_relabel hnil g ts
  cases hts : parse ts with
  | ok es =>
      rw [hts] at hparse
      exact hparse
  | error e =>
      rw [hts] at hparse
      exact hparse

/-- Tokens that differ in their lines only are read alike. -/
theorem parse_of_unlined {ts us : List Token}
    (h : ts.map Token.unlined = us.map Token.unlined) :
    parse ts = parse us ∨ ∃ e e', parse ts = .error e ∧ parse us = .error e' ∧
      e.unlined = e'.unlined := by
  have hparse : (parse ts).mapError ParseError.unlined =
      (parse us).mapError ParseError.unlined :=
    calc (parse ts).mapError ParseError.unlined
        = parse (ts.map Token.unlined) := (parse_relabel (fun _ => 0) ts).symm
      _ = parse (us.map Token.unlined) := by rw [h]
      _ = (parse us).mapError ParseError.unlined := parse_relabel (fun _ => 0) us
  cases hts : parse ts with
  | ok es =>
      rw [hts] at hparse
      cases hus : parse us with
      | ok es' =>
          rw [hus] at hparse
          cases hparse
          exact .inl rfl
      | error e' =>
          rw [hus] at hparse
          cases hparse
  | error e =>
      rw [hts] at hparse
      cases hus : parse us with
      | ok es' =>
          rw [hus] at hparse
          cases hparse
      | error e' =>
          rw [hus] at hparse
          exact .inr ⟨e, e', rfl, rfl, Except.error.inj hparse⟩

namespace Interpreter

/-! ## Loads of texts that are read alike -/

/-- The interpreters are the same but for what they have told. -/
structure Alike (i j : Interpreter) : Prop where
  keywords : i.keywords = j.keywords
  forest : i.forest = j.forest
  units : i.units = j.units
  fresh : i.fresh = j.fresh
  output : i.console.output = j.console.output

theorem alike_tell (i : Interpreter) (events events' : List Event) :
    (i.tell events).Alike (i.tell events') where
  keywords := rfl
  forest := rfl
  units := rfl
  fresh := rfl
  output := (Console.output_tellAll ..).trans (Console.output_tellAll ..).symm

theorem tell_tell (i : Interpreter) (events events' : List Event) :
    (i.tell events).tell events' = i.tell (events ++ events') := by
  simp [tell, Console.tellAll]

theorem After.alike {i j k : Interpreter} {fresh : Identity} {run : Run}
    (h : i.After fresh run j) (h' : i.After fresh run k) (hunits : j.units = k.units) :
    j.Alike k where
  keywords := h.keywords.trans h'.keywords.symm
  forest := h.forest.trans h'.forest.symm
  units := hunits
  fresh := h.fresh.trans h'.fresh.symm
  output := h.output.trans h'.output.symm

theorem units_load_of_ok (i : Interpreter) (fuel : Nat) (name : String) {source : String}
    {es : List Expr} (hparse : parse (lex i.keywords source).tokens = .ok es) :
    (i.load fuel name source).2.units = i.units ++ [⟨name, (compileAll es i.fresh).1⟩] := by
  have hunit : (Operation.load name source).unit? i.keywords i.fresh = some _ :=
    Operation.unit?_of_ok rfl hparse i.fresh
  rw [(stepped_load fuel i name source).units, hunit]
  rfl

/-- What was left out of a text has no influence on its load. -/
theorem load_congr (i : Interpreter) (fuel : Nat) (name : String) {source source' : String}
    (hparse : parse (lex i.keywords source).tokens = parse (lex i.keywords source').tokens) :
    (i.load fuel name source').1 = (i.load fuel name source).1.map
        (fun loaded => { loaded with diagnostics := (lex i.keywords source').diagnostics }) ∧
      (i.load fuel name source).2.Alike (i.load fuel name source').2 := by
  cases hes : parse (lex i.keywords source').tokens with
  | error e =>
      rw [i.load_of_error fuel name hes, i.load_of_error fuel name (hparse.trans hes), tell_tell,
        tell_tell]
      exact ⟨rfl, alike_tell ..⟩
  | ok es =>
      have hes' := hparse.trans hes
      have hunits := (i.units_load_of_ok fuel name hes').trans
        (i.units_load_of_ok fuel name hes).symm
      have hfirst := i.load_ends fuel name hes'
      have hsecond := i.load_ends fuel name hes
      generalize Run.muteEnd (Program.run fuel (compileAll es i.fresh).1 i.start) = result
        at hfirst hsecond
      cases result with
      | ok v run =>
          rw [hfirst.1, hsecond.1]
          exact ⟨rfl, hfirst.2.alike hsecond.2 hunits⟩
      | error stop run =>
          rw [hfirst.1, hsecond.1]
          exact ⟨rfl, hfirst.2.alike hsecond.2 hunits⟩

/-- Two loads have succeeded with the same value and the same diagnostics, or failed
with the same error, whatever the lines. -/
inductive SameOutcome : Except LoadError Loaded → Except LoadError Loaded → Prop
  | ok (v : Value) {ds ds' : List Diagnostic} :
      ds.map Diagnostic.fault = ds'.map Diagnostic.fault →
      SameOutcome (.ok ⟨v, ds⟩) (.ok ⟨v, ds'⟩)
  | parse {e e' : ParseError} : e.unlined = e'.unlined →
      SameOutcome (.error (.parse e)) (.error (.parse e'))
  | eval (stop : Stop) : SameOutcome (.error (.eval stop)) (.error (.eval stop))

/-- A load has no diagnostics but those of its text. -/
theorem load_cases (i : Interpreter) (fuel : Nat) (name source : String) :
    (∃ v, (i.load fuel name source).1 = .ok ⟨v, (lex i.keywords source).diagnostics⟩) ∨
      (∃ e, (i.load fuel name source).1 = .error (.parse e)) ∨
      ∃ stop, (i.load fuel name source).1 = .error (.eval stop) := by
  cases hparse : MiniLisp.parse (lex i.keywords source).tokens with
  | error e => exact .inr (.inl ⟨e, by rw [i.load_of_error fuel name hparse]⟩)
  | ok es =>
      have hends := i.load_ends fuel name hparse
      generalize Run.muteEnd _ = result at hends
      cases result with
      | ok v run => exact .inl ⟨v, hends.1⟩
      | error stop run => exact .inr (.inr ⟨stop, hends.1⟩)

/-- Texts whose tokens and faults are the same on other lines have the same outcome. -/
theorem load_of_unlined (i : Interpreter) (fuel : Nat) (name : String) {source source' : String}
    (htokens : (lex i.keywords source).tokens.map Token.unlined =
      (lex i.keywords source').tokens.map Token.unlined)
    (hfaults : (lex i.keywords source).diagnostics.map Diagnostic.fault =
      (lex i.keywords source').diagnostics.map Diagnostic.fault) :
    SameOutcome (i.load fuel name source).1 (i.load fuel name source').1 ∧
      (i.load fuel name source).2.Alike (i.load fuel name source').2 := by
  rcases parse_of_unlined htokens with hparse | ⟨e, e', he, he', hsame⟩
  · obtain ⟨hresult, halike⟩ := i.load_congr fuel name hparse
    refine ⟨?_, halike⟩
    rw [hresult]
    rcases i.load_cases fuel name source with ⟨v, hload⟩ | ⟨e, hload⟩ | ⟨stop, hload⟩
    · rw [hload]
      exact .ok v hfaults
    · rw [hload]
      exact .parse rfl
    · rw [hload]
      exact .eval stop
  · rw [i.load_of_error fuel name he, i.load_of_error fuel name he', tell_tell, tell_tell]
    exact ⟨.parse hsame, alike_tell ..⟩

/-- Whitespace outside strings may be replaced by other whitespace: the load of the text
has the same outcome up to lines, and the same effects. -/
theorem layout_independent (i : Interpreter) (fuel : Nat) (name s w w' t : String)
    (hne : w ≠ "") (hne' : w' ≠ "") (hw : ∀ c ∈ w.toList, Lexeme.isSpace c = true)
    (hw' : ∀ c ∈ w'.toList, Lexeme.isSpace c = true)
    (hclosed : ∀ d ∈ (lex i.keywords s).diagnostics, ∀ quote,
      d.fault ≠ .unterminatedString quote) :
    let first := i.load fuel name (s ++ w ++ t)
    let second := i.load fuel name (s ++ w' ++ t)
    SameOutcome first.1 second.1 ∧ first.2.Alike second.2 := by
  intro first second
  apply i.load_of_unlined fuel name
  · rw [lex_append t hne hw hclosed, lex_append t hne' hw' hclosed]
    simp [Lexed.shift, Function.comp_def, Token.unlined_shift]
  · rw [lex_append t hne hw hclosed, lex_append t hne' hw' hclosed]
    simp [Lexed.shift, Function.comp_def, Diagnostic.shift]

/-- A string over two lines before the whitespace, and behind it a number that is left
out. -/
theorem layout_independent_later_line :
    let i := Interpreter.new .standard
    let s := "(list 'a\nb'"
    let t := "2x)"
    let first := i.load 4 "unit" (s ++ " " ++ t)
    let second := i.load 4 "unit" (s ++ "\t\r\n" ++ t)
    first.1 = .ok ⟨.list [.str "a\nb"], [⟨2, .invalidSuffix "2x"⟩]⟩ ∧
      second.1 = .ok ⟨.list [.str "a\nb"], [⟨3, .invalidSuffix "2x"⟩]⟩ ∧
      SameOutcome first.1 second.1 ∧ first.2.Alike second.2 := by
  intro i s t first second
  have hdiagnostics : (lex .standard s).diagnostics = [] := by
    decide +kernel
  have hclosed : ∀ d ∈ (lex .standard s).diagnostics, ∀ quote,
      d.fault ≠ .unterminatedString quote := by
    simp [hdiagnostics]
  have hsplit : Lexeme.split (s ++ " " ++ t).toList =
      [.symbol .lparen '(', .word "list".toList, .blank [' '], .string '\'' ['a', '\n', 'b'],
        .blank [' '], .number ['2'] ['x'], .symbol .rparen ')'] := by
    decide +kernel
  have hsplit' : Lexeme.split (s ++ "\t\r\n" ++ t).toList =
      [.symbol .lparen '(', .word "list".toList, .blank [' '], .string '\'' ['a', '\n', 'b'],
        .blank ['\t', '\r'], .newline, .number ['2'] ['x'], .symbol .rparen ')'] := by
    decide +kernel
  have hparse : parse (lex .standard (s ++ " " ++ t)).tokens =
      .ok [.list [.literal (.str "a\nb")]] := by
    rw [lex, hsplit]
    rfl
  have hparse' : parse (lex .standard (s ++ "\t\r\n" ++ t)).tokens =
      .ok [.list [.literal (.str "a\nb")]] := by
    rw [lex, hsplit']
    rfl
  have hfirst : first.1 = .ok ⟨.list [.str "a\nb"], [⟨2, .invalidSuffix "2x"⟩]⟩ := by
    have hends : first.1 = .ok ⟨.list [.str "a\nb"], (lex .standard (s ++ " " ++ t)).diagnostics⟩ ∧
        _ := i.load_ends 4 "unit" hparse
    rw [hends.1, lex, hsplit]
    rfl
  have hsecond : second.1 = .ok ⟨.list [.str "a\nb"], [⟨3, .invalidSuffix "2x"⟩]⟩ := by
    have hends : second.1 =
        .ok ⟨.list [.str "a\nb"], (lex .standard (s ++ "\t\r\n" ++ t)).diagnostics⟩ ∧ _ :=
      i.load_ends 4 "unit" hparse'
    rw [hends.1, lex, hsplit']
    rfl
  have hspace : ∀ c ∈ " ".toList, Lexeme.isSpace c = true := List.all_eq_true.mp (by decide)
  have hspace' : ∀ c ∈ "\t\r\n".toList, Lexeme.isSpace c = true :=
    List.all_eq_true.mp (by decide)
  exact ⟨hfirst, hsecond,
    layout_independent i 4 "unit" s _ _ t (by decide) (by decide) hspace hspace' hclosed⟩

end Interpreter
end MiniLisp
